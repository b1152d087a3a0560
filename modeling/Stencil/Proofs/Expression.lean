import Stencil.Proofs.Emission
import Stencil.Proofs.Instruction
import Stencil.Proofs.Mirror

/-!
# Generated expressions mean what their trees mean

The code of an expression, run in an activation that holds what the tree refers to, has the value of
the tree under direct interpretation, makes the same calls in the same order and halts in the same
way (`Emits.shows`). The only trace that it leaves are the temporaries of the calls in it, which no
function can see.
-/

namespace Stencil

open Script Compile Direct Engine Eval List

/-! ## Values and machinery -/

variable {k : Knowledge} {call : Call}

/-- The call of a method of what an identifier is known to hold. -/
theorem Mirror.method {β : Type} {post err} (hs : call.Sound) {id self}
    (hid : k.known id = some self) {field} (hfield : fieldOf self field = pure (.method self field))
    {es} {y : Eval β} (h : ∀ inner, Coupled (Mirror k)
      (evalAll call k.r es >>= fun cs => callMethod inner self field cs) y post err) :
    Coupled (Mirror k) (eval call k.r (.method (.name id) field es)) y post err := by
  obtain ⟨inner, hinner⟩ := hs.method
  have hcall (cs : List Cell) : callCell call (.method self field) cs =
      callMethod inner self field cs := hinner self field cs
  simp only [Expr.method, eval, bind_assoc]
  refine read hid ?_
  simp only [hfield, pure_bind, hcall]
  exact h inner

namespace Shows

theorem values_bind {α β : Type} {f x y} {s : List Value → Eval α} {t : List Value → Eval β}
    (hx : Shows k (map Cell.value) x y) (hs : ∀ vs, Shows k f (s vs) (t vs)) :
    Shows k f (x >>= fun cs => liftM (valuesIn cs) >>= s) (y >>= t) := by
  refine hx.bind fun vs => ?_
  rw [valuesIn_values]
  exact hs vs

theorem callCell_value (hs : call.Sound) (f : Value) (vs : List Value) :
    Shows k Cell.value (callCell call (.value f) (vs.map .value)) (call.value f vs) := by
  unfold callCell
  simp only [entryArguments?_values, valuesIn_values]
  exact value (neutral (hs.value f vs))

theorem helper_one (hs : call.Sound) (hrt : k.known .runtime = some .runtime) (field : Attr)
    (hfield : fieldOf .runtime field = pure (.method .runtime field)) {e : Expr} {y : Eval Value}
    {z : Value → Eval Value} (he : Yields call k e y)
    (hz : ∀ inner v, Shows k Cell.value (callMethod inner .runtime field [.value v]) (z v)) :
    Yields call k (.helper field [e]) (y >>= z) := by
  refine Mirror.method hs hrt hfield fun inner => ?_
  simp only [evalAll, bind_assoc, pure_bind]
  exact he.bind (hz inner)

/-- The call of a function of the runtime with two arguments. -/
theorem helper_two (hs : call.Sound) (hrt : k.known .runtime = some .runtime) {field : Attr}
    (hfield : fieldOf .runtime field = pure (.method .runtime field)) {e e' : Expr}
    {y y' : Eval Value} {z : Value → Value → Eval Value} (he : Yields call k e y)
    (he' : Yields call k e' y') (hz : ∀ inner v v', Shows k Cell.value
      (callMethod inner .runtime field [.value v, .value v']) (z v v')) :
    Yields call k (.helper field [e, e'])
      (y >>= fun v => y' >>= fun v' => z v v') := by
  refine Mirror.method hs hrt hfield fun inner => ?_
  simp only [evalAll, bind_assoc, pure_bind]
  exact he.bind fun v => he'.bind (hz inner v)

theorem name {id v} (hid : k.known id = some (.value v)) : Yields call k (.name id) (pure v) := by
  have h : Shows k Cell.value (Script.read k.r id >>= pure) (pure v) :=
    Mirror.read hid (Shows.pure v)
  rwa [bind_pure] at h

theorem list {es : List Expr} {y : Eval (List Value)}
    (h : Shows k (map Cell.value) (evalAll call k.r es) y) :
    Yields call k (.list es) (y >>= fun vs => newList vs) := by
  rw [Yields, eval]
  exact values_bind h fun vs => value (lift _)

theorem dict {es y} (h : Shows k id (evalEntries call k.r es) y) : Yields call k (.dict es) (do
      let entries ← y
      newDict (display (← get).toHeap entries)) := by
  rw [Yields, eval]
  refine h.bind fun entries => Coupled.get_bind fun w w' hw => ?_
  have hnew := value (lift (newDict (display w.toHeap entries))) w w' hw
  obtain ⟨acts, rfl, -⟩ := hw.veiled
  exact hnew

end Shows

/-! ## Expressions -/

/-- The script knows everything that a tree in the given scope and place refers to, and the
temporaries of which it knows something are among the first ones. -/
structure Stands (scope : Scope Ident) (place : Place) (k : Knowledge) (temps : Nat) :
    Prop where
  env : k.known .env = some (.value place.env)
  context : k.known .context = some (.context place.context)
  frame : k.known .frame = some (.frame place.frame)
  runtime : k.known .runtime = some .runtime
  bound {x id} : scope.lookup x = some id →
    ∃ v, place.names x = some v ∧ k.known id = some (.value v)
  free {x} : scope.lookup x = none → place.names x = none
  temps_le {j c} : k.known (.temp j) = some c → j ≤ temps

namespace Stands

variable {scope : Scope Ident} {place : Place} {k : Knowledge} {temps : Nat}

theorem mono (h : Stands scope place k temps) {more} (hle : temps ≤ more) :
    Stands scope place k more :=
  { h with temps_le := fun hj => Nat.le_trans (h.temps_le hj) hle }

theorem after {p p' : Progress} (h : Stands scope place k p.temps) (ha : p.Advances p') :
    Stands scope place k p'.temps :=
  h.mono ha.temps_le

theorem unknown (h : Stands scope place k temps) {j} (hj : temps < j) : k.known (.temp j) = none :=
  Option.eq_none_iff_forall_ne_some.2 fun _ hc => Nat.not_le_of_lt hj (h.temps_le hc)

theorem keep (h : Stands scope place k temps) {i j} (hj : temps < j) {d}
    (hi : k.known (.temp i) = some d) (c : Cell) :
    (k.learn (.temp j) c).known (.temp i) = some d := by
  refine (k.known_learn_of_ne ?_ c).trans hi
  rintro ⟨⟩
  exact Nat.not_le_of_lt hj (h.temps_le hi)

/-- Learning what a new temporary holds. -/
theorem learn (h : Stands scope place k temps) {j} (hj : temps < j) (c : Cell) :
    Stands scope place (k.learn (.temp j) c) j where
  env := h.env
  context := h.context
  frame := h.frame
  runtime := h.runtime
  bound hx := by
    obtain ⟨v, hv, hid⟩ := h.bound hx
    refine ⟨v, hv, (k.known_learn_of_ne ?_ c).trans hid⟩
    rintro rfl
    exact Nat.not_le_of_lt hj (h.temps_le hid)
  free := h.free
  temps_le {i d} hi := by
    by_cases hij : Ident.temp i = .temp j
    · cases hij
      exact Nat.le_refl _
    · rw [k.known_learn_of_ne hij] at hi
      exact Nat.le_trans (h.temps_le hi) (Nat.le_of_lt hj)

end Stands

/-- The identifiers belong to the script and are hidden. -/
def Knowledge.Covers (k : Knowledge) (ids : List Ident) : Prop :=
  ∀ id ∈ ids, id ∈ k.own ∧ k.hidden id

theorem Knowledge.Covers.sub {k : Knowledge} {ids ids'} (h : k.Covers ids) (hsub : ids' ⊆ ids) :
    k.Covers ids' :=
  fun id hid => h id (hsub hid)

theorem Knowledge.covers_append {k : Knowledge} {ids ids'} :
    k.Covers (ids ++ ids') ↔ k.Covers ids ∧ k.Covers ids' := by
  simp only [Knowledge.Covers, mem_append]
  exact ⟨fun h => ⟨fun id hid => h id (.inl hid), fun id hid => h id (.inr hid)⟩,
    fun h id hid => hid.elim (h.1 id) (h.2 id)⟩

theorem Knowledge.covers_cons {k : Knowledge} {id ids} :
    k.Covers (id :: ids) ↔ (id ∈ k.own ∧ k.hidden id) ∧ k.Covers ids := by
  simp only [Knowledge.Covers, forall_mem_cons]

variable {scope : Scope Ident} {place : Place} {call : Call} {k : Knowledge}

/-- A reference to a name. -/
theorem Shows.reference (hs : call.Sound) {x : String} {temps : Nat}
    (hk : Stands scope place k temps) : Yields call k (reference scope x) (reference place x) := by
  unfold Compile.reference Direct.reference
  cases hx : scope.lookup x with
  | some id =>
    obtain ⟨v, hv, hmem⟩ := hk.bound hx
    rw [hv]
    exact name hmem
  | none =>
    rw [hk.free hx]
    refine Mirror.method hs hk.runtime rfl fun inner => ?_
    simp only [evalAll, eval, Script.Expr.text, bind_assoc, pure_bind]
    refine Mirror.read hk.context (Mirror.read hk.frame ?_)
    exact value (neutral (.of_closed fun _ hR => hR.resolve place.context place.frame x))

/-- The filter that an expression names. -/
theorem Shows.filterNamed (hs : call.Sound) {name : String} {temps : Nat}
    (hk : Stands scope place k temps) : Yields call k (.method (.name .env) .getFilter [.text name])
      (filterNamed place.env name) := by
  have henv := hk.env
  by_cases he : place.env = .environment
  · rw [he] at henv ⊢
    refine Mirror.method hs henv rfl fun inner => ?_
    simp only [evalAll, eval, Expr.text, pure_bind]
    exact value (lift (getFilter name))
  · -- Nothing else has filters, and both sides say so.
    have hfield : fieldOf (.value place.env) .getFilter =
        fail (.missingAttribute place.env.typeName Attr.getFilter.text) := by
      cases h : place.env <;> first | rfl | exact absurd h he
    have hdirect : Direct.filterNamed place.env name =
        fail (.missingAttribute place.env.typeName Attr.getFilter.text) := by
      cases h : place.env <;> first | rfl | exact absurd h he
    simp only [Yields, Expr.method, eval, bind_assoc]
    refine Mirror.read henv ?_
    rw [hfield, hdirect]
    exact Shows.fail _

theorem Shows.keywordKey {n c} (h : n.content? = some c) :
    Yields call k (.ofContent c) (keywordKey n) := by
  unfold Direct.keywordKey
  rw [h]
  cases c with
  | constant c =>
    rw [Yields, Expr.ofContent, eval]
    exact Shows.pure _
  | node m =>
    rw [Yields, Expr.ofContent, eval]
    exact Shows.fail _

theorem Shows.arithmetic (op : BinOp) {l r left right y y'}
    (hl : Yields call k l y) (hr : Yields call k r y')
    (hcl : l.isConstant = isConstant left) (hcr : r.isConstant = isConstant right) :
    Yields call k (.binary op l r)
      (y >>= fun a => y' >>= fun b => arithmetic op left right a b) := by
  simp only [Yields, eval, hcl, hcr]
  exact value_bind hl fun a => value_bind hr fun b => (lift _).bind fun v => Shows.pure _

/-- A conjunction or disjunction ends with the operand that decides it. -/
theorem Shows.boolean {pos op op' l r left right} (hop : op.logical? = some op')
    (hl : Yields call k l (expr call place left)) (hr : Yields call k r (expr call place right)) :
    Yields call k (.boolean op' l r)
      (expr call place (.binary pos op left right)) := by
  cases op <;> cases hop <;> simp only [Yields, eval, Direct.expr]
  · exact value_bind hl fun v => .ite_truthy v (.pure v) hr
  · exact value_bind hl fun v => .ite_truthy v hr (.pure v)

theorem Engine.callMethod_isMacro (inner : Call) (v : Value) :
    callMethod inner .runtime .isMacro [.value v] =
      liftM (isMacro v) >>= fun b => pure (.value (.bool b)) := by
  show ((liftM (isMacro v) : Eval Bool) >>= fun b => pure (Value.bool b)) >>= (fun v =>
    pure (Cell.value v)) = _
  simp only [bind_assoc, pure_bind]

/-- The test whether a callee is a macro keeps the callee in a temporary. -/
theorem Mirror.isMacro {α β : Type} {post : α → β → World → World → Prop} (hs : call.Sound)
    {j temps : Nat} (hk : Stands scope place k temps)
    (hcov : Ident.temp j ∈ k.own ∧ k.hidden (.temp j)) {f : Expr} {y : Eval Value}
    (hf : Yields call k f y) {s : Cell → Eval α} {t : Value → Bool → Eval β}
    (h : ∀ v b, Coupled (Mirror (k.learn (.temp j) (.value v))) (s (.value (.bool b))) (t v b)
      post (Veiled k.r k.hidden)) :
    Coupled (Mirror k) (eval call k.r (.helper .isMacro [.bind (.temp j) f]) >>= s)
      (y >>= fun v => liftM (isMacro v) >>= t v) post (Veiled k.r k.hidden) := by
  have htest : Coupled (Mirror k) (eval call k.r (.helper .isMacro [.bind (.temp j) f]))
      (y >>= fun v => liftM (Eval.isMacro v) >>= fun b => pure (v, b))
      (fun c vb w w' => c = .value (.bool vb.2) ∧ Mirror (k.learn (.temp j) (.value vb.1)) w w')
      (Veiled k.r k.hidden) := by
    refine Mirror.method hs hk.runtime rfl fun inner => ?_
    simp only [evalAll, eval, bind_assoc, pure_bind]
    refine Coupled.bind hf fun c v => ?_
    rintro w w' ⟨rfl, hw⟩
    refine Mirror.write hcov.1 hcov.2 ?_ w w' hw
    rw [callMethod_isMacro]
    refine Coupled.bind (Mirror.step (.lift (Eval.isMacro v))) fun b b' => ?_
    exact Coupled.pure fun _ _ h => ⟨by rw [h.1], h.2⟩
  have hboth : Coupled (Mirror k) (eval call k.r (.helper .isMacro [.bind (.temp j) f]) >>= s)
      ((y >>= fun v => liftM (Eval.isMacro v) >>= fun b => pure (v, b)) >>= fun vb => t vb.1 vb.2)
      post (Veiled k.r k.hidden) := by
    refine Coupled.bind htest fun c vb => ?_
    rintro w w' ⟨rfl, hw⟩
    exact h vb.1 vb.2 w w' hw
  simpa only [bind_assoc, pure_bind] using hboth

/-- A call: the callee is kept in a temporary while the arguments are evaluated. -/
theorem Shows.dualCall (hs : call.Sound) {j temps} (hk : Stands scope place k temps)
    (hj : temps < j) (hcov : Ident.temp j ∈ k.own ∧ k.hidden (.temp j)) {f positional keywords}
    {y : Eval Value} {ps : Eval (List Value)} {ks} (hf : Yields call k f y)
    (hps : ∀ v, Shows (k.learn (.temp j) (.value v)) (map Cell.value)
      (evalAll call k.r positional) ps)
    (hks : ∀ v, Shows (k.learn (.temp j) (.value v)) id (evalEntries call k.r keywords) ks) :
    Yields call k (dualCall (.temp j) f positional keywords)
      (y >>= fun v => callWith call v ps ks) := by
  simp only [callWith]
  refine Mirror.isMacro hs hk hcov hf fun v b => ?_
  have htemp := k.known_learn_self (.temp j) (.value v)
  have hmac : Shows (k.learn (.temp j) (.value v)) Cell.value
      (eval call k.r (.call (.name (.temp j)) [.list positional, .dict keywords]))
      (callMacro call v ps ks) := by
    have hargs : Shows (k.learn (.temp j) (.value v)) Cell.value (do
          let args ← eval call k.r (.list positional)
          let kwargs ← eval call k.r (.dict keywords)
          callCell call (.value v) [args, kwargs])
        (do
          let args ← (do newList (← ps))
          let kwargs ← (do
            let entries ← ks
            newDict (display (← get).toHeap entries))
          call.value v [args, kwargs]) :=
      (Shows.list (hps v)).bind fun args => (Shows.dict (hks v)).bind fun kwargs =>
        Shows.callCell_value hs v [args, kwargs]
    rw [eval, eval]
    refine Mirror.read htemp (?_ : Shows _ _ _ _)
    simpa only [evalAll, Direct.callMacro, bind_assoc, pure_bind] using hargs
  have hplain : Shows (k.learn (.temp j) (.value v)) Cell.value
      (eval call k.r (.call (.name (.temp j)) positional))
      (ps >>= fun vs => call.value v vs) := by
    simp only [eval]
    exact Mirror.read htemp ((hps v).bind fun vs => Shows.callCell_value hs v vs)
  have hforget {c : Cell} {u : Value} {w w' : World}
      (h : c = .value u ∧ Mirror (k.learn (.temp j) (.value v)) w w') :
      c = .value u ∧ Mirror k w w' := ⟨h.1, h.2.forget (hk.unknown hj)⟩
  cases b with
  | true => exact hmac.ensures fun _ _ _ _ => hforget
  | false => exact hplain.ensures fun _ _ _ _ => hforget

theorem Script.Expr.assigned_helper (field : Attr) (es : List Expr) :
    (Expr.helper field es).assigned = assignedIn es := by
  simp [Expr.helper, Expr.method, Expr.assigned]

theorem Script.assignedIn_one (e : Expr) : assignedIn [e] = e.assigned := by
  simp [assignedIn]

theorem Knowledge.covers_dualCall {j : Nat} {f positional keywords} :
    k.Covers (dualCall (.temp j) f positional keywords).assigned ↔
      (Ident.temp j ∈ k.own ∧ k.hidden (.temp j)) ∧ k.Covers f.assigned ∧
        k.Covers (assignedIn positional) ∧ k.Covers (assignedInEntries keywords) := by
  simp only [dualCall, Expr.helper, Expr.method, Expr.assigned, assignedIn,
    Knowledge.covers_append, Knowledge.covers_cons]
  simp [Knowledge.Covers]
  grind

theorem Script.assignedIn_two (e e' : Expr) : assignedIn [e, e'] = e.assigned ++ e'.assigned := by
  simp [assignedIn]

namespace Compile

theorem EmitsOperands.isEmpty_eq {ns p p' es} (h : EmitsOperands scope ns p es p') :
    es.isEmpty = ns.isEmpty := by
  cases h <;> rfl

end Compile

open Compile

mutual

/-- The code of an expression shows what the expression means. -/
theorem Compile.Emits.shows {k : Knowledge} (hs : call.Sound) {n : Node} {p p' : Progress}
    {e : Expr} : Emits scope n p e p' → Stands scope place k p.temps → k.Covers e.assigned →
    Yields call k e (Direct.expr call place n)
  | .literal, _, _ => by
    simp only [Direct.expr]
    exact Shows.pure _
  | .text, _, _ => by
    simp only [Expr.text, Direct.expr]
    exact Shows.pure _
  | .symbol, hk, _ => by
    rw [Direct.expr]
    exact Shows.reference hs hk
  | .group h, hk, hc => by
    rw [Direct.expr]
    exact h.shows hs hk hc
  | .tuple hne h, hk, hc => by
    rw [Direct.expr_tuple hne]
    simp only [Yields, eval]
    exact Shows.values_bind (h.shows hs hk hc) fun vs => .value (.lift _)
  | .array h, hk, hc => by
    rw [Direct.expr]
    exact .list (h.shows hs hk hc)
  | .dict h, hk, hc => by
    rw [Direct.expr]
    exact .dict (h.shows hs hk hc)
  | .boolean hop hl hr, hk, hc => by
    obtain ⟨hcl, hcr⟩ := Knowledge.covers_append.1 hc
    exact .boolean hop (hl.shows hs hk hcl) (hr.shows hs (hk.after hl.advances) hcr)
  | .binary hop hl hr, hk, hc => by
    obtain ⟨hcl, hcr⟩ := Knowledge.covers_append.1 hc
    rw [Direct.expr_arithmetic hop]
    exact .arithmetic _ (hl.shows hs hk hcl) (hr.shows hs (hk.after hl.advances) hcr)
      hl.isConstant_eq hr.isConstant_eq
  | .floorDiv hl hr, hk, hc => by
    rw [Expr.assigned_helper, assignedIn_one] at hc
    obtain ⟨hcl, hcr⟩ := Knowledge.covers_append.1 hc
    have hdiv := Shows.arithmetic .div (hl.shows hs hk hcl)
      (hr.shows hs (hk.after hl.advances) hcr) hl.isConstant_eq hr.isConstant_eq
    have hfloor := Shows.helper_one hs hk.runtime .floor rfl hdiv
      fun inner v => .value (.lift (Eval.floor v))
    simpa only [Direct.expr, bind_assoc] using hfloor
  | .power hl hr, hk, hc => by
    rw [Expr.assigned_helper, assignedIn_two] at hc
    obtain ⟨hcl, hcr⟩ := Knowledge.covers_append.1 hc
    rw [Direct.expr]
    exact Shows.helper_two hs hk.runtime rfl (hl.shows hs hk hcl)
      (hr.shows hs (hk.after hl.advances) hcr) fun inner a b => .value (.lift (Eval.power a b))
  | .unary hop h, hk, hc => by
    simp only [Yields, eval, Direct.expr, hop, h.isConstant_eq]
    exact Shows.value_bind (h.shows hs hk hc) fun a => (Shows.lift _).bind fun v => .pure _
  | .compare h hrest, hk, hc => by
    obtain ⟨hc, hcs⟩ := Knowledge.covers_append.1 hc
    simp only [Yields, eval, Direct.expr]
    exact Shows.value_bind (h.shows hs hk hc) fun v =>
      .value (hrest.shows hs (hk.after h.advances) hcs v)
  | .lookup _ _ ht hkey, hk, hc => by
    rw [Expr.assigned_helper, assignedIn_two] at hc
    obtain ⟨hct, hckey⟩ := Knowledge.covers_append.1 hc
    rw [Direct.expr]
    exact Shows.helper_two hs hk.runtime rfl (ht.shows hs hk hct)
      (hkey.shows hs (hk.after ht.advances) hckey) fun inner a b => .value (.lift (Eval.member a b))
  | .call _ has hf, hk, hc => by
    obtain ⟨hcov, hcf, hcp, hck⟩ := Knowledge.covers_dualCall.1 hc
    rw [Direct.expr, Direct.positional?_eq, Direct.keywords?_eq]
    exact .dualCall hs hk (Nat.lt_succ_self _) hcov (hf.shows hs (hk.after has.advances.fresh) hcf)
      (fun v => has.shows_positional hs (hk.learn (Nat.lt_succ_self _) _) hcp)
      fun v => has.shows_keywords hs (hk.learn (Nat.lt_succ_self _) _) hck
  | .filter has, hk, hc => by
    rw [Yields, Direct.expr, Direct.positional?_eq, eval]
    refine (Shows.filterNamed hs hk).bind fun f => ?_
    have hcp := (Knowledge.covers_append.1 hc).2
    exact (has.shows_positional hs hk hcp).bind fun vs => Shows.callCell_value hs f vs

theorem Compile.EmitsAll.shows {k : Knowledge} (hs : call.Sound) {ns p p' es} :
    EmitsAll scope ns p es p' → Stands scope place k p.temps → k.Covers (assignedIn es) →
    Shows k (List.map Cell.value) (evalAll call k.r es) (Direct.exprs call place ns)
  | .nil, _, _ => by
    simp only [evalAll]
    exact Shows.pure []
  | .cons h hrest, hk, hc => by
    obtain ⟨hc, hcs⟩ := Knowledge.covers_append.1 hc
    simp only [evalAll]
    refine (h.shows hs hk hc).bind fun v => ?_
    exact (hrest.shows hs (hk.after h.advances) hcs).bind fun vs => Shows.pure (v :: vs)

theorem Compile.EmitsEntries.shows {k : Knowledge} (hs : call.Sound) {ns p p' es} :
    EmitsEntries scope ns p es p' → Stands scope place k p.temps →
    k.Covers (assignedInEntries es) →
    Shows k id (evalEntries call k.r es) (Direct.dictEntries call place ns)
  | .nil, _, _ => by
    simp only [evalEntries, Direct.dictEntries]
    exact Shows.pure []
  | .cons hkey _ h hrest, hk, hc => by
    obtain ⟨hc, hcs⟩ := Knowledge.covers_append.1 hc
    simp only [evalEntries, eval, Expr.text, Direct.dictEntries, hkey, pure_bind]
    refine Shows.value_bind (h.shows hs hk hc) fun v => ?_
    exact (hrest.shows hs (hk.after h.advances) hcs).bind fun vs => Shows.pure (_ :: vs)

theorem Compile.EmitsOperands.shows {k : Knowledge} (hs : call.Sound) {ns p p' es} :
    EmitsOperands scope ns p es p' → Stands scope place k p.temps →
    k.Covers (assignedInOperands es) → ∀ left : Value,
    Shows k id (evalChain call k.r left es) (chain call place left ns)
  | .nil, _, _, left => by
    simp only [evalChain, chain]
    exact Shows.pure _
  | .cons hop h hrest, hk, hc, left => by
    obtain ⟨hc, hcs⟩ := Knowledge.covers_append.1 hc
    simp only [evalChain, chain, hop, hrest.isEmpty_eq]
    refine Shows.value_bind (h.shows hs hk hc) fun right => (Shows.lift _).bind fun holds => ?_
    exact .ite (.ite (Shows.pure _) (hrest.shows hs (hk.after h.advances) hcs right)) (Shows.pure _)

theorem Compile.EmitsArguments.shows_positional {k : Knowledge} (hs : call.Sound)
    {ns p p' positional keywords} :
    EmitsArguments scope ns p positional keywords p' → Stands scope place k p.temps →
    k.Covers (assignedIn positional) →
    Shows k (List.map Cell.value) (evalAll call k.r positional) (Direct.positional call place ns)
  | .nil, _, _ => by
    simp only [evalAll, Direct.positional]
    exact Shows.pure []
  | .keyword _ h hrest, hk, hc => by
    rw [Direct.positional]
    exact hrest.shows_positional hs (hk.after h.advances) hc
  | .positional hne h hrest, hk, hc => by
    obtain ⟨hc, hcs⟩ := Knowledge.covers_append.1 hc
    rw [positional_cons hne, evalAll]
    refine (h.shows hs hk hc).bind fun v => ?_
    exact (hrest.shows_positional hs (hk.after h.advances) hcs).bind fun vs => Shows.pure (v :: vs)

theorem Compile.EmitsArguments.shows_keywords {k : Knowledge} (hs : call.Sound)
    {ns p p' positional keywords} :
    EmitsArguments scope ns p positional keywords p' → Stands scope place k p.temps →
    k.Covers (assignedInEntries keywords) →
    Shows k id (evalEntries call k.r keywords) (Direct.keywords call place ns)
  | .nil, _, _ => by
    simp only [evalEntries, Direct.keywords]
    exact Shows.pure []
  | .keyword hkey h hrest, hk, hc => by
    obtain ⟨hce, hcs⟩ := Knowledge.covers_append.1 hc
    simp only [evalEntries, Direct.keywords]
    refine Shows.value_bind (Shows.keywordKey hkey) fun key => ?_
    refine Shows.value_bind (h.shows hs hk (Knowledge.covers_append.1 hce).2) fun v => ?_
    exact (hrest.shows_keywords hs (hk.after h.advances) hcs).bind fun vs =>
      Shows.pure ((key, v) :: vs)
  | .positional hne h hrest, hk, hc => by
    rw [keywords_cons hne]
    exact hrest.shows_keywords hs (hk.after h.advances) hc

end

/-! ## In any state -/

/-- Calls of which an observer is told, with the callee and the arguments, before they are made. -/
def Call.watched (observe : Value → List Value → Operation Unit) (call : Call) : Call :=
  { call with
    value := fun f args => do
      observe f args
      call.value f args }

theorem Call.Sound.watched {call : Call} (hs : call.Sound)
    (observe : Value → List Value → Operation Unit) : (call.watched observe).Sound where
  value f args := (Neutral.lift (observe f args)).bind fun _ => hs.value f args
  method := hs.method

/-- In the state `w`, code compiled in a scope can run in the activation `r` in place of a direct
interpretation in `place`: what the code takes for granted is there, and the names that the scope
binds are assigned. -/
structure Ready (scope : Scope Ident) (place : Place) (r : Ref) (w : World) : Prop where
  nesting : w.Scoped
  env : reads? w r .env = some (.value place.env)
  context : reads? w r .context = some (.context place.context)
  frame : reads? w r .frame = some (.frame place.frame)
  runtime : reads? w r .runtime = some .runtime
  bound {x id} : scope.lookup x = some id →
    ∃ v, place.names x = some v ∧ reads? w r id = some (.value v)
  free {x} : scope.lookup x = none → place.names x = none

/-- The identifiers belong to the activation `r`, and no function of the state reads them from
there. -/
structure Reserved (w : World) (r : Ref) (ids : List Ident) : Prop where
  own : ∃ a, w.activations.get? r = some a ∧ ∀ id ∈ ids, id ∈ a.owned
  unseen {q c o} : w.functions.get? q = some (.closure c) →
    c.outer = some o → ∀ id ∈ mentionedInBody c.body, id ∈ ids → id ∉ c.owned →
      ownerOf w.activations id o ≠ some r

/-- What an activation holds, the temporaries behind the first ones apart. -/
def heldBefore (w : World) (r : Ref) (temps : Nat) : Ident → Option Cell
  | .temp j => if j ≤ temps then reads? w r (.temp j) else none
  | id => reads? w r id

theorem reads?_of_heldBefore {w r temps id c} (h : heldBefore w r temps id = some c) :
    reads? w r id = some c := by
  cases id with
  | temp j =>
    simp only [heldBefore] at h
    split at h
    · exact h
    · cases h
  | _ => exact h

/-- Code that takes its temporaries behind the first ones can rely on what the activation holds. -/
theorem Ready.stands {scope place r w temps hidden own} (h : Ready scope place r w)
    (htemps : ∀ x j, scope.lookup x = some (.temp j) → j ≤ temps) :
    Stands scope place { r, hidden, own, known := heldBefore w r temps } temps where
  env := h.env
  context := h.context
  frame := h.frame
  runtime := h.runtime
  bound {x id} hx := by
    obtain ⟨v, hv, hr⟩ := h.bound hx
    refine ⟨v, hv, ?_⟩
    cases id with
    | temp j => exact (if_pos (htemps x j hx)).trans hr
    | _ => exact hr
  free := h.free
  temps_le {j c} hj := by
    simp only [heldBefore] at hj
    split at hj
    · assumption
    · cases hj

/-- Two equal states in which a script is about to run. -/
theorem Ready.mirror {scope place r w ids a temps} (h : Ready scope place r w)
    (hres : Reserved w r ids) (ha : w.activations.get? r = some a) :
    Mirror { r, hidden := (· ∈ ids), own := a.owned, known := heldBefore w r temps } w w where
  veiled := ⟨w.activations, rfl,
    { nesting := h.nesting
      lt := Store.get?_eq_some_lt ha
      size := rfl
      other := fun _ _ => rfl
      own := fun {b} hb => ⟨b.vars, hb, fun _ _ => rfl⟩
      unseen := hres.unseen }⟩
  owned := ⟨a, ha, rfl⟩
  reads _ _ := reads?_of_heldBefore
  parent _ _ hf := nomatch hf

/-- Code that is generated for an expression gives what direct interpretation gives: in a state in
which the names that the scope binds are assigned, both have the same value or halt in the same way,
make the same calls with the same arguments in the same order, and leave the same state but for the
temporaries of the code. Whatever callables do, as long as it is neutral: calls may be any sound
ones, those of the engine among them (`Engine.sound_call`). -/
theorem eval_agrees_with_direct {scope : Scope Ident} {n : Node} {e : Expr} {p p' : Progress}
    {place : Direct.Place} {r : Ref} {w : World} {base : Call} (hbase : base.Sound)
    (observe : Value → List Value → Operation Unit) (hcode : Gives (expr scope n) p e p')
    (htemps : ∀ x j, scope.lookup x = some (.temp j) → j ≤ p.temps)
    (hready : Ready scope place r w) (hres : Reserved w r e.assigned) :
    Agree (fun c v u u' => c = .value v ∧ Veiled r (· ∈ e.assigned) u u')
      (Veiled r (· ∈ e.assigned))
      ((eval (base.watched observe) r e).outcome w)
      ((Direct.expr (base.watched observe) place n).outcome w) := by
  obtain ⟨a, ha, hown⟩ := hres.own
  have hk : Stands scope place
      { r, hidden := (· ∈ e.assigned), own := a.owned, known := heldBefore w r p.temps } p.temps :=
    hready.stands htemps
  have hshows := (emits_of_gives n hcode).shows (hbase.watched observe) hk
    fun id hid => ⟨hown id hid, hid⟩
  exact (hshows w w (hready.mirror hres ha)).mono (fun _ _ _ _ h => ⟨h.1, h.2.veiled⟩)
    fun _ _ h => h

/-- A call inside a comparison inside a conjunction, in a scope that binds a name to a temporary. -/
theorem call_agrees_with_direct :
    let pos : Position := {}
    let callee : Node := .lookup pos (.symbol pos "x") (.literal pos (.str "upper"))
    let n : Node := .binary pos .and (.symbol pos "x") (.compare pos
      (.call pos callee (some [.keyword pos (.symbol pos "k") (.symbol pos "y")]))
      [.operand pos (.literal pos (.str "A")) "=="])
    let scope : Scope Ident := Scope.set {} "x" (.temp 1)
    let place : Direct.Place :=
      { env := .environment, context := 0, frame := 0
        names := fun x => if x = "x" then some (.ofText "a") else none }
    let a : Activation :=
      { owned := [.env, .context, .frame, .runtime, .temp 1, .temp 2]
        vars := Table.ofList [(.env, .value .environment), (.context, .context 0),
          (.frame, .frame 0), (.runtime, .runtime), (.temp 1, .value (.ofText "a"))] }
    let w : World := { activations := Store.push {} a }
    ∃ e p', Gives (expr scope n) { temps := 1 } e p' ∧ Ready scope place 0 w ∧
      Reserved w 0 e.assigned ∧
      let call := (Engine.call 9).watched fun _ _ => Eval.note "called"
      Agree (fun c v u u' => c = .value v ∧ Veiled 0 (· ∈ e.assigned) u u')
        (Veiled 0 (· ∈ e.assigned)) ((eval call 0 e).outcome w)
        ((Direct.expr call place n).outcome w) := by
  intro pos callee n scope place a w
  have hnested : w.Scoped := World.scoped_empty.pushActivation fun _ ho => nomatch ho
  have hscope {x : String} {id : Ident} (hx : scope.lookup x = some id) :
      x = "x" ∧ id = .temp 1 := by
    by_cases h : x = "x"
    · subst h
      cases hx
      exact ⟨rfl, rfl⟩
    · rw [Scope.lookup_set_of_ne _ h] at hx
      cases hx
  have hready : Ready scope place 0 w :=
    { nesting := hnested
      env := rfl
      context := rfl
      frame := rfl
      runtime := rfl
      bound := fun hx => by
        obtain ⟨rfl, rfl⟩ := hscope hx
        exact ⟨_, rfl, rfl⟩
      free := fun {x} hx => if_neg fun h => by
        subst h
        cases hx }
  obtain ⟨e, p', hcode, hassigned⟩ :
      ∃ e p', Gives (expr scope n) { temps := 1 } e p' ∧ e.assigned = [.temp 2] := ⟨_, _, rfl, rfl⟩
  have hres : Reserved w 0 e.assigned :=
    { own := ⟨a, rfl, fun id hid => by
        rw [hassigned] at hid
        rw [List.mem_singleton.1 hid]
        decide⟩
      unseen := fun hq => by simp [w, Store.get?] at hq }
  refine ⟨e, p', hcode, hready, hres,
    eval_agrees_with_direct (Engine.sound_call 8) _ hcode (fun x j hx => ?_) hready hres⟩
  cases (hscope hx).2
  exact Nat.le_refl 1

end Stencil
