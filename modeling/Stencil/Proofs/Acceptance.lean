import Stencil.Proofs.Grammar

/-!
# The language that the compiler accepts

A compilation step settles the places of the nodes that it compiles (`Settles`): it stops with the
first violation that they show, and succeeds when they show none. By one lemma for each building
block and one for each kind of node, the compilation of a whole template settles its places in their
order, so that a tree is compiled exactly when it obeys the grammar.
-/

namespace Stencil

open Grammar Compile List
open Script (Ident)

/-- The error that reports a violation. -/
def Grammar.Violation.error (v : Violation) : CompileError :=
  .violation v.cause (some v.pos)

namespace Compile

variable {α β : Type} {places rest : List Place}

/-- A compilation step stops with an error. -/
def Fails (x : Gen α) (p : Progress) (e : CompileError) : Prop :=
  ∃ p', x.run.run p = (.error e, p')

variable {p : Progress} {e : CompileError} {n : Node}

theorem Fails.bind {x} (h : Fails x p e) (f : α → Gen β) : Fails (x >>= f) p e := by
  obtain ⟨p', h⟩ := h
  refine ⟨p', ?_⟩
  rw [ExceptT.run_bind, StateT.run_bind, h]
  rfl

theorem Gives.fails_bind {x} {f : α → Gen β} {q a} (hx : Gives x p a q) (h : Fails (f a) q e) :
    Fails (x >>= f) p e := by
  obtain ⟨p', h⟩ := h
  refine ⟨p', ?_⟩
  rw [ExceptT.run_bind, StateT.run_bind, show x.run.run p = (.ok a, q) from hx]
  exact h

theorem fails_throw : Fails (throw e : Gen α) p e :=
  ⟨p, rfl⟩

/-- A step stops with the first violation that the places show, and succeeds when they show none. It
knows of a parent afterwards if it knew of one before or the places name one. -/
def Settles (x : Gen α) (places : List Place) : Prop :=
  ∀ p, (∀ v, firstViolation? p.child places = some v → Fails x p v.error) ∧
    (firstViolation? p.child places = none →
      ∃ a p', Gives x p a p' ∧ p'.child = (p.child || places.any Place.isInheritance))

attribute [local simp] Node.children

namespace Settles

variable {x : Gen α} {f : α → Gen β} {place : Place}

theorem of_gives (h : ∀ p, ∃ a p', Gives x p a p' ∧ p'.child = p.child) : Settles x [] := by
  intro p
  refine ⟨fun v hv => (by cases hv), fun _ => ?_⟩
  obtain ⟨a, p', hx, hchild⟩ := h p
  exact ⟨a, p', hx, by simp [hchild]⟩

theorem pure (a : α) : Settles (pure a) [] :=
  of_gives fun p => ⟨a, p, gives_pure.2 ⟨rfl, rfl⟩, rfl⟩

theorem fresh : Settles fresh [] :=
  of_gives fun _ => ⟨_, _, gives_fresh.2 ⟨rfl, rfl⟩, rfl⟩

theorem get : Settles (get : Gen Progress) [] :=
  of_gives fun p => ⟨p, p, gives_get.2 ⟨rfl, rfl⟩, rfl⟩

/-- Steps one after the other settle their places one after the other. The second step may rely on
what the first one gives. -/
theorem bind_gives (hx : Settles x places) (hf : ∀ a, (∃ p q, Gives x p a q) → Settles (f a) rest) :
    Settles (x >>= f) (places ++ rest) := by
  intro p
  rw [firstViolation?_append]
  cases hfirst : firstViolation? p.child places with
  | some v =>
    refine ⟨fun v' hv' => ?_, fun h => by cases h⟩
    cases hv'
    exact ((hx p).1 v hfirst).bind f
  | none =>
    obtain ⟨a, q, ha, hchild⟩ := (hx p).2 hfirst
    rw [← hchild, Option.none_or]
    refine ⟨fun v hv => ha.fails_bind ((hf a ⟨p, q, ha⟩ q).1 v hv), fun h => ?_⟩
    obtain ⟨b, p', hb, hchild'⟩ := (hf a ⟨p, q, ha⟩ q).2 h
    refine ⟨b, p', gives_bind.2 ⟨a, q, ha, hb⟩, ?_⟩
    rw [hchild', hchild, any_append, Bool.or_assoc]

theorem bind (hx : Settles x places) (hf : ∀ a, Settles (f a) rest) :
    Settles (x >>= f) (places ++ rest) :=
  hx.bind_gives fun a _ => hf a

theorem next_gives (hx : Settles x []) (hf : ∀ a, (∃ p q, Gives x p a q) → Settles (f a) places) :
    Settles (x >>= f) places :=
  hx.bind_gives hf

theorem next (hx : Settles x []) (hf : ∀ a, Settles (f a) places) : Settles (x >>= f) places :=
  hx.bind hf

theorem map (hx : Settles x places) (hf : ∀ a, Settles (f a) []) : Settles (x >>= f) places := by
  have h := hx.bind hf
  rwa [append_nil] at h

theorem cons_bind (hx : Settles x [place]) (hf : ∀ a, Settles (f a) rest) :
    Settles (x >>= f) (place :: rest) :=
  hx.bind hf

/-- A place that shows no violation and names no parent has no effect. -/
theorem pass (hplace : place.violation? false = none) (hinherits : place.isInheritance = false)
    (hx : Settles x places) :
    Settles x (place :: places) := by
  intro p
  have hnone : place.violation? p.child = none :=
    violation?_eq_none_iff.2 ⟨hplace, by rw [hinherits, Bool.and_false]⟩
  rw [firstViolation?, hnone, hinherits, Bool.or_false, Option.none_or]
  refine ⟨(hx p).1, fun h => ?_⟩
  obtain ⟨a, p', ha, hchild⟩ := (hx p).2 h
  exact ⟨a, p', ha, by rw [hchild, any_cons, hinherits, Bool.false_or]⟩

theorem throw {v e} (hplace : ∀ inherits, place.violation? inherits = some v) (he : e = v.error) :
    Settles (throw e : Gen α) (place :: places) := by
  intro p
  rw [firstViolation?, hplace, Option.some_or]
  refine ⟨fun v' hv' => ?_, fun h => by cases h⟩
  cases hv'
  exact he ▸ fails_throw

end Settles

/-! ## Expressions -/

theorem settles_demand (n : Node) : Settles (demand (isValueKind n) n) [.value n] := by
  cases hkind : isValueKind n with
  | true => exact .pass (violation?_value.2 hkind) rfl (.pure ())
  | false =>
    have hviolation : ∀ inherits, (Place.value n).violation? inherits =
        some ⟨.invalidType n.kindName, n.position⟩ :=
      fun _ => by simp [Place.violation?, rejected, hkind]
    exact Settles.throw hviolation rfl

theorem isSome_compareOp? (sign : String) :
    (compareOp? sign).isSome = true ↔ sign ∈ ["==", "!=", "<", ">", "<=", ">="] := by
  unfold compareOp?
  split <;> simp_all

theorem settles_nameOf (h : n.isName = true) : Settles (nameOf n) [] := by
  obtain ⟨pos, name, rfl⟩ := Node.exists_of_isName h
  exact .pure _

theorem settles_reject_expression (h : isExpressionKind n = false) :
    Settles (reject (.unknownNode n.kindName) n : Gen α) (.expression n :: places) :=
  .throw (v := ⟨.unknownNode n.kindName, n.position⟩)
    (fun _ => by simp [Place.violation?, rejected, h]) rfl

mutual

/-- The compilation of an expression settles its places. -/
theorem settles_expr (scope : Scope Ident) : ∀ (n : Node), n.Declared →
    Settles (expr scope n) (expressionPlaces n)
  | .literal .., _ | .text .., _ | .symbol .., _ => .pass rfl rfl (.pure _)
  | .group _ [], _ => .pass rfl rfl (.pure _)
  | .group _ [item], h => by
    have hitem := settles_expr scope item (h.child (by simp))
    simp only [expr, expressionPlaces, expressionsPlaces, append_nil]
    exact .pass rfl rfl hitem
  | .group _ (first :: second :: rest), h =>
    .pass rfl rfl (.map (settles_exprs scope (first :: second :: rest) fun n hn => h.child hn)
      fun _ => .pure _)
  | .array _ items, h =>
    .pass rfl rfl (.map (settles_exprs scope items fun n hn => h.child hn) fun _ => .pure _)
  | .dict _ entries, h =>
    .pass rfl rfl (.map (settles_dictEntries scope entries fun n hn => h.child hn)
      fun _ => .pure _)
  | .binary _ op left right, h => by
    have hleft := settles_expr scope left (h.child (by simp))
    have hright := settles_expr scope right (h.child (by simp))
    cases op with
    | generic => exact settles_reject_expression rfl
    | _ => exact .pass rfl rfl (.bind hleft fun _ => .map hright fun _ => .pure _)
  | .unary _ op target, h => by
    have htarget := settles_expr scope target (h.child (by simp))
    cases op with
    | generic => exact settles_reject_expression rfl
    | _ => exact .pass rfl rfl (.map htarget fun _ => .pure _)
  | .compare _ first rest, h => by
    have hfirst := settles_expr scope first (h.child (by simp))
    have hrest := settles_operands scope rest (all_eq_true.1 h.self)
      fun n hn => h.child (mem_cons_of_mem _ hn)
    exact .pass rfl rfl (.bind hfirst fun _ => .map hrest fun _ => .pure _)
  | .lookup _ target key, h => by
    have htarget := settles_expr scope target (h.child (by simp))
    have hkey := settles_expr scope key (h.child (by simp))
    exact .pass rfl rfl (.cons_bind (settles_demand target) fun _ => .bind htarget fun _ =>
      .cons_bind (settles_demand key) fun _ => .map hkey fun _ => .pure _)
  | .call _ callee args?, h => by
    have hargs := settles_callArguments scope args? fun n hn => h.child (mem_cons_of_mem _ hn)
    have hcallee := settles_expr scope callee (h.child (by simp))
    exact .pass rfl rfl (.next .fresh fun _ => .bind hargs fun _ =>
      .cons_bind (settles_demand callee) fun _ => .map hcallee fun _ => .pure _)
  | .filter _ name args?, h => by
    have hargs := settles_callArguments scope args? fun n hn => h.child (mem_cons_of_mem _ hn)
    cases hname : name.isName with
    | true =>
      obtain ⟨pos, s, rfl⟩ := Node.exists_of_isName hname
      exact .pass rfl rfl (.pass rfl rfl (.map hargs fun _ => .pure _))
    | false =>
      refine .pass rfl rfl ?_
      cases name with
      | symbol pos s => cases hname
      | _ => exact .throw (fun _ => rfl) rfl
  | .pair .., _ | .operand .., _ | .keyword .., _ | .sequence .., _ | .conditional .., _
  | .loop .., _ | .assign .., _ | .param .., _ | .macroDef .., _ | .output .., _
  | .inherit .., _ | .block .., _ | .inclusion .., _ | .importAll .., _ | .importNames .., _
  | .root .., _ | .unknown .., _ => settles_reject_expression rfl

theorem settles_exprs (scope : Scope Ident) : ∀ (ns : List Node), (∀ n ∈ ns, n.Declared) →
    Settles (exprs scope ns) (expressionsPlaces ns)
  | [], _ => .pure _
  | n :: rest, h => by
    obtain ⟨hn, hrest⟩ := forall_mem_cons.1 h
    exact .bind (settles_expr scope n hn) fun _ => .map (settles_exprs scope rest hrest)
      fun _ => .pure _

theorem settles_dictEntries (scope : Scope Ident) : ∀ (ns : List Node), (∀ n ∈ ns, n.Declared) →
    Settles (dictEntries scope ns) (entryPlaces ns)
  | [], _ => .pure _
  | n :: rest, h => by
    obtain ⟨hn, hothers⟩ := forall_mem_cons.1 h
    have hrest := settles_dictEntries scope rest hothers
    cases n with
    | pair pos key value =>
      have hvalue := settles_expr scope value (hn.child (by simp))
      refine .pass rfl rfl ?_
      cases hkey : dictKey? key with
      | some k =>
        simp only [dictEntries, hkey]
        refine .pass (violation?_entryKey.2 (by rw [hkey]; rfl)) rfl ?_
        exact .cons_bind (settles_demand value) fun _ => .bind hvalue fun _ =>
          .map hrest fun _ => .pure _
      | none =>
        simp only [dictEntries, hkey]
        exact .throw (v := ⟨.dictKey, key.position⟩)
          (fun _ => by simp [Place.violation?, rejected, hkey]) rfl
    | _ => exact .throw (fun _ => rfl) rfl

theorem settles_operands (scope : Scope Ident) : ∀ (ns : List Node),
    (∀ n ∈ ns, n.isOperand = true) → (∀ n ∈ ns, n.Declared) →
    Settles (operands scope ns) (operandPlaces ns)
  | [], _, _ => .pure _
  | n :: rest, hkinds, h => by
    obtain ⟨hkind, hothers⟩ := forall_mem_cons.1 hkinds
    obtain ⟨hn, hdeclared⟩ := forall_mem_cons.1 h
    have hrest := settles_operands scope rest hothers hdeclared
    cases n with
    | operand pos e sign =>
      have he := settles_expr scope e (hn.child (by simp))
      have hsign := isSome_compareOp? sign
      cases hop : compareOp? sign with
      | some op =>
        simp only [operands, hop]
        refine .pass (violation?_sign.2 (hsign.1 (by rw [hop]; rfl))) rfl ?_
        exact .bind he fun _ => .map hrest fun _ => .pure _
      | none =>
        have hunknown : sign ∉ ["==", "!=", "<", ">", "<=", ">="] := by
          rw [← hsign, hop]
          exact Bool.false_ne_true
        simp only [operands, hop]
        exact .throw (fun _ => if_neg hunknown) rfl
    | _ => cases hkind

theorem settles_arguments (scope : Scope Ident) : ∀ (ns : List Node), (∀ n ∈ ns, n.Declared) →
    Settles (arguments scope ns) (argumentPlaces ns)
  | [], _ => .pure _
  | n :: rest, h => by
    obtain ⟨hn, hothers⟩ := forall_mem_cons.1 h
    have hrest := settles_arguments scope rest hothers
    cases n with
    | keyword pos key value =>
      have hvalue := settles_expr scope value (hn.child (by simp))
      exact .next (settles_nameOf hn.self) fun _ => .bind hvalue fun _ =>
        .map hrest fun _ => .pure _
    | _ => exact .bind (settles_expr scope _ hn) fun _ => .map hrest fun _ => .pure _

theorem settles_callArguments (scope : Scope Ident) : ∀ (args? : Option (List Node)),
    (∀ n ∈ args?.getD [], n.Declared) → Settles (callArguments scope args?) (callPlaces args?)
  | none, _ => .pure _
  | some args, h => settles_arguments scope args h

end

theorem settles_value (scope : Scope Ident) (h : n.Declared) :
    Settles (value scope n) (valuePlaces n) :=
  .cons_bind (settles_demand n) fun _ => settles_expr scope n h

/-! ## Statements -/

theorem settles_outputs (scope : Scope Ident) (buffer : Ident) : ∀ (ns : List Node),
    (∀ n ∈ ns, n.Declared) → Settles (outputs scope buffer ns) (expressionsPlaces ns) := by
  intro ns h
  induction ns with
  | nil => exact .pure _
  | cons n rest ih =>
    obtain ⟨hn, hothers⟩ := forall_mem_cons.1 h
    have hrest := ih hothers
    cases n with
    | text pos s => exact .pass rfl rfl (.map hrest fun _ => .pure _)
    | _ => exact .bind (settles_expr scope _ hn) fun _ => .map hrest fun _ => .pure _

theorem settles_loopNames (n : Node) : Settles (loopNames n) [.target n] := by
  cases n with
  | symbol pos name => exact .pass rfl rfl (.pure _)
  | array pos targets =>
    match targets with
    | [first, second] =>
      cases first with
      | symbol firstPos key =>
        cases second with
        | symbol secondPos value => exact .pass rfl rfl (.pure _)
        | _ => exact .throw (fun _ => rfl) rfl
      | _ => exact .throw (fun _ => rfl) rfl
    | [] => exact .throw (fun _ => rfl) rfl
    | [_] | _ :: _ :: _ :: _ =>
      simp only [loopNames]
      exact .throw (fun _ => rfl) rfl
  | _ => exact .throw (fun _ => rfl) rfl

theorem settles_mapM {f : Node → Gen α} {ns : List Node} (h : ∀ n ∈ ns, Settles (f n) []) :
    Settles (ns.mapM f) [] := by
  induction ns with
  | nil => exact .pure _
  | cons n rest ih =>
    obtain ⟨hn, hrest⟩ := forall_mem_cons.1 h
    rw [mapM_cons]
    exact .next hn fun _ => .map (ih hrest) fun _ => .pure _

theorem settles_signature (scope : Scope Ident) : ∀ (params : List Node),
    (∀ param ∈ params, param.isParam = true) → (∀ param ∈ params, param.Declared) →
    Settles (signature scope params) (defaultPlaces params) := by
  intro params hkinds h
  induction params with
  | nil => exact .pure _
  | cons param rest ih =>
    obtain ⟨hkind, hothers⟩ := forall_mem_cons.1 hkinds
    obtain ⟨hparam, hdeclared⟩ := forall_mem_cons.1 h
    have hrest := ih hothers hdeclared
    obtain ⟨pos, name, default?, rfl⟩ := Node.exists_of_isParam hkind
    have hname := settles_nameOf hparam.self
    cases default? with
    | none => exact .next hname fun _ => .map hrest fun _ => .pure _
    | some d =>
      have hd := settles_expr scope d (hparam.child (by simp))
      exact .next hname fun _ => .bind hd fun _ => .map hrest fun _ => .pure _

theorem settles_paramKey (hkind : n.isParam = true) (h : n.Declared) : Settles (paramKey n) [] := by
  obtain ⟨pos, name, default?, rfl⟩ := Node.exists_of_isParam hkind
  obtain ⟨namePos, s, rfl⟩ := Node.exists_of_isName h.self
  exact .pure _

theorem settles_publishMacro (child : Bool) (name : String) :
    Settles (publishMacro child (.constant (.str name))) [] := by
  cases child <;> exact .pure _

/-- A parent is named where none was named before. -/
theorem settles_inherit (site : Site) (scope : Scope Ident) {pos parent} (h : parent.Declared) :
    Settles (stmt site scope (.inherit pos parent)) (.inheritance pos :: valuePlaces parent) := by
  intro p
  cases hchild : p.child with
  | true =>
    refine ⟨fun v hv => ?_, fun h => by cases h⟩
    cases hv
    refine Gives.fails_bind (gives_get.2 ⟨rfl, rfl⟩) ?_
    simp only [hchild, if_true]
    exact fails_throw.bind _
  | false =>
    have hsame := firstViolation?_of_countP_eq_zero (countP_valuePlaces parent) true p.child
    obtain ⟨hfails, hgives⟩ := settles_value scope h p
    show (∀ v, firstViolation? true (valuePlaces parent) = some v → _) ∧
      (firstViolation? true (valuePlaces parent) = none → _)
    rw [hsame]
    refine ⟨fun v hv => Gives.fails_bind (gives_get.2 ⟨rfl, rfl⟩) ?_, fun hnone => ?_⟩
    · simp only [hchild, Bool.false_eq_true, if_false]
      exact (hfails v hv).bind _
    · obtain ⟨e, q, he, -⟩ := hgives hnone
      refine ⟨(inheritance e (.temp (q.temps + 1)), scope), { temps := q.temps + 1, child := true },
        gives_bind.2 ⟨p, p, gives_get.2 ⟨rfl, rfl⟩, ?_⟩, rfl⟩
      simp only [hchild, Bool.false_eq_true, if_false, gives_bind]
      exact ⟨e, q, he, _, _, gives_fresh.2 ⟨rfl, rfl⟩, (), _, gives_modify.2 rfl,
        gives_pure.2 ⟨rfl, rfl⟩⟩

mutual

/-- The compilation of a statement settles its places. -/
theorem settles_stmt : ∀ (n : Node) (site : Site) (scope : Scope Ident), n.Declared →
    Settles (stmt site scope n) (statementPlaces n)
  | .text .., _, _, _ => .pass rfl rfl (.pure _)
  | .output _ items, site, scope, h =>
    .pass rfl rfl (.map (settles_outputs scope site.buffer items fun n hn => h.child hn)
      fun _ => .pure _)
  | .sequence _ items, site, scope, h =>
    .pass rfl rfl (settles_stmts items site scope fun n hn => h.child hn)
  | .conditional _ test body none, site, scope, h => by
    have htest := settles_value scope (n := test) (h.child (by simp))
    have hbody := settles_stmt body site scope (h.child (by simp))
    exact .pass rfl rfl (.bind htest fun _ => .map hbody fun _ => .pure _)
  | .conditional _ test body (some otherwise), site, scope, h => by
    have htest := settles_value scope (n := test) (h.child (by simp))
    have hbody := settles_stmt body site scope (h.child (by simp))
    have hother (scope) := settles_stmt otherwise site scope (h.child (by simp))
    exact .pass rfl rfl (.bind htest fun _ => .bind hbody fun (_, inner) =>
      .map (hother inner) fun _ => .pure _)
  | .loop _ target source body, site, scope, h => by
    have hsource := settles_value scope.push (n := source) (h.child (by simp))
    have hbody (scope) := settles_stmt body site scope (h.child (by simp))
    refine .pass rfl rfl (.next .fresh fun _ => .next .fresh fun _ => .bind hsource fun _ =>
      .cons_bind (settles_loopNames target) fun names => ?_)
    cases names with
    | one name =>
      exact .next .fresh fun _ => .next .fresh fun _ => .map (hbody _) fun _ => .pure _
    | two key value =>
      exact .next .fresh fun _ => .next .fresh fun _ => .map (hbody _) fun _ => .pure _
  | .assign _ targets e, site, scope, h => by
    have hvalue := settles_value scope (n := e) (h.child (by simp))
    have hnames : Settles (targets.mapM fun t => do textOf (← nameOf t)) [] := by
      refine settles_mapM fun t ht => ?_
      obtain ⟨pos, name, rfl⟩ := Node.exists_of_isName (all_eq_true.1 h.self t ht)
      exact .pure _
    exact .pass rfl rfl (.next .fresh fun _ => .map hvalue fun _ => .map hnames fun _ => .pure _)
  | .macroDef _ name params body, site, scope, h => by
    obtain ⟨hname, hkinds⟩ := Bool.and_eq_true_iff.1 h.self
    have hkinds := all_eq_true.1 hkinds
    have hparams : ∀ param ∈ params, param.Declared :=
      fun param hparam => h.child (by simp [hparam])
    have hnames := settles_mapM fun param hparam =>
      settles_paramKey (hkinds param hparam) (hparams param hparam)
    have hbody (site scope) := settles_stmt body site scope (h.child (by simp))
    have hdefaults := settles_signature scope params hkinds hparams
    refine .pass rfl rfl (.next_gives (settles_nameOf hname) fun c ⟨_, _, hc⟩ => ?_)
    obtain ⟨namePos, s, rfl⟩ := Node.exists_of_isName hname
    cases (gives_nameOf.1 hc).1
    exact .next hnames fun _ => .bind (hbody _ _) fun _ => .map hdefaults fun _ =>
      .next (.pure _) fun _ => .next .get fun q => .map (settles_publishMacro q.child s) fun _ =>
      .pure _
  | .block _ name _, site, scope, h => by
    obtain ⟨namePos, name, rfl⟩ := Node.exists_of_isName h.self
    exact .pass rfl rfl (.pure _)
  | .inherit _ parent, site, scope, h =>
    .pass rfl rfl (settles_inherit site scope (h.child (by simp)))
  | .inclusion _ template, site, scope, h => by
    have htemplate := settles_value scope (n := template) (h.child (by simp))
    exact .pass rfl rfl (.next .fresh fun _ => .map htemplate fun _ => .pure _)
  | .importAll _ template _, site, scope, h => by
    have htemplate := settles_expr scope template (h.child (by simp))
    exact .pass rfl rfl (.map htemplate fun _ => .map .get fun _ => .pure _)
  | .importNames _ template _, site, scope, h => by
    have htemplate := settles_expr scope template (h.child (by simp))
    exact .pass rfl rfl (.next .fresh fun _ => .next .fresh fun _ => .map htemplate fun _ =>
      .map .get fun _ => .pure _)
  | .literal .., _, _, _ | .symbol .., _, _, _ | .group .., _, _, _ | .array .., _, _, _
  | .pair .., _, _, _ | .dict .., _, _, _ | .binary .., _, _, _ | .unary .., _, _, _
  | .operand .., _, _, _ | .compare .., _, _, _ | .lookup .., _, _, _ | .keyword .., _, _, _
  | .call .., _, _, _ | .filter .., _, _, _ | .param .., _, _, _ | .root .., _, _, _
  | .unknown .., _, _, _ => .throw (fun _ => rfl) rfl

theorem settles_stmts : ∀ (ns : List Node) (site : Site) (scope : Scope Ident),
    (∀ n ∈ ns, n.Declared) → Settles (stmts site scope ns) (statementsPlaces ns)
  | [], _, _, _ => .pure _
  | n :: rest, site, scope, h => by
    obtain ⟨hn, hrest⟩ := forall_mem_cons.1 h
    exact .bind (settles_stmt n site scope hn) fun (_, inner) =>
      .map (settles_stmts rest site inner hrest) fun _ => .pure _

end

/-! ## Templates -/

theorem settles_rootFunction {items} (h : ∀ n ∈ items, n.Declared) :
    Settles (rootFunction items) (statementsPlaces items) :=
  .map (settles_stmts items _ _ h) fun _ => .map .get fun _ => .pure _

theorem settles_blockTable (h : ∀ d ∈ n.blocks, d.1.isName = true) : Settles (blockTable n) [] := by
  unfold blockTable
  generalize n.blocks = blocks at h
  generalize ([] : BlockTable) = table
  induction blocks generalizing table with
  | nil => exact .pure _
  | cons d rest ih =>
    obtain ⟨hd, hrest⟩ := forall_mem_cons.1 h
    obtain ⟨name, body⟩ := d
    obtain ⟨pos, s, rfl⟩ := Node.exists_of_isName hd
    rw [foldlM_cons]
    exact .next (.pure _) fun _ => ih hrest _

theorem settles_blockFunctions {table} (h : ∀ entry ∈ table, entry.2.Declared) :
    Settles (blockFunctions table) (statementsPlaces (table.map (·.2))) := by
  induction table with
  | nil => exact .pure _
  | cons entry rest ih =>
    obtain ⟨hentry, hrest⟩ := forall_mem_cons.1 h
    have hfunction : Settles (blockFunction entry.1 entry.2) (statementPlaces entry.2) :=
      .map (settles_stmt entry.2 _ _ hentry) fun _ => .pure _
    exact .bind hfunction fun _ => .map (ih hrest) fun _ => .pure _

theorem isName_of_mem_blocks (h : n.Declared) : ∀ d ∈ n.blocks, d.1.isName = true := by
  intro d hd
  obtain ⟨b, hb, hmatch⟩ := mem_filterMap.1 hd
  cases b <;> cases hmatch
  exact (h.of_mem_descendants hb).self

theorem isSome_textName? (h : n.isName = true) : n.textName?.isSome = true := by
  obtain ⟨pos, name, rfl⟩ := Node.exists_of_isName h
  rfl

/-- The compilation of a template settles the places of what is compiled of it. -/
theorem settles_templateModule {pos items} (h : (Node.root pos items).Declared) :
    Settles (templateModule (.root pos items))
      (statementsPlaces (Node.root pos items).compiledPart) := by
  have hnames := isName_of_mem_blocks h
  rw [Node.compiledPart, statementsPlaces_append]
  refine .bind (settles_rootFunction fun n hn => h.child hn) fun root =>
    .next_gives (settles_blockTable hnames) fun table ⟨p, q, htable⟩ => ?_
  obtain rfl := blockTable_eq (fun d hd => isSome_textName? (hnames d hd)) htable
  have hbodies : ∀ entry ∈ (Node.root pos items).definitions.entries.map tableEntry,
      entry.2.Declared := by
    intro entry hentry
    obtain ⟨d, hd, rfl⟩ := mem_map.1 hentry
    exact h.of_mem_compiledPart (mem_append_right _ (mem_map_of_mem hd))
  have hblocks := settles_blockFunctions hbodies
  rw [map_map] at hblocks
  exact .map hblocks fun _ => .pure _

end Compile

theorem compileModule_of_violation {tree v} (h : tree.Declared)
    (hv : Grammar.violation? tree = some v) :
    ∃ c, ({} : Compiler).compileModule tree false = (.error v.error, c) := by
  cases tree with
  | root pos items =>
    obtain ⟨p, hp⟩ := (settles_templateModule h {}).1 v hv
    exact ⟨{ used := true, progress := p }, by simp [Compiler.compileModule, hp]⟩
  | _ =>
    cases hv
    exact ⟨{ used := true }, rfl⟩

theorem compileModule_of_no_violation {tree} (h : tree.Declared)
    (hnone : Grammar.violation? tree = none) :
    ∃ m c, ({} : Compiler).compileModule tree false = (.ok m, c) := by
  cases tree with
  | root pos items =>
    obtain ⟨⟨m, names⟩, p, hp, -⟩ := (settles_templateModule h {}).2 hnone
    refine ⟨m, { used := true, progress := p, blockNames := names }, ?_⟩
    have hrun : (templateModule (.root pos items)).run.run {} = (.ok (m, names), p) := hp
    simp [Compiler.compileModule, hrun]
  | _ => cases hnone

/-- A template that defines a block twice and names two parents. Its first definition of the block
is no statement, but only the last one is compiled; the first violation is the unknown sign. -/
def doubleParent : Node :=
  .root {} [.block {} (.symbol {} "b") (.output {} [.pair {} (.symbol {} "k") (.symbol {} "v")]),
      .inherit {} (.literal {} (.str "base")),
      .output {} [.compare {} (.literal {} (.int 1))
        [.operand { line? := some 3, column? := some 4 } (.literal {} (.int 2)) "in"]],
      .inherit {} (.literal {} (.str "other")),
      .block {} (.symbol {} "b") (.text {} "x")]

end Stencil
