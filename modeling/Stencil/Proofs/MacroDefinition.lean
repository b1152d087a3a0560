import Stencil.Proofs.Accumulation
import Stencil.Proofs.Assignment
import Stencil.Proofs.Binding

/-!
# Definitions of macros

Executing the definition of a macro makes a function of its body and evaluates the defaults of its
parameters, once, in the function that the definition stands in (`Defaults`); the macro object keeps
both (`World.HoldsMacro`). The object is bound to the variable of its name, and published unless the
template has a parent. No buffer changes on the way (`shields_macroDef`).
-/

namespace Stencil

open Script Compile Engine Eval List Store World

variable {c : Node.Content} {child : Bool} {s : Stmt}

variable {P P' : Lists} {w u : World} {r : Ref}

/-! ## Buffers -/

/-- The lists in which functions collect their output have the content that they have in `w`. -/
def World.KeepsBuffers (w u : World) : Prop :=
  ∀ a id out, id.isBuffer = true → w.PrintsTo a id out → u.listItems out = w.listItems out

theorem World.Later.keepsBuffers {A} (h : Later A nobody P w P' u) (hw : w.Sealed P) :
    w.KeepsBuffers u := by
  intro a id out hb hprints
  obtain ⟨hlt, hP⟩ := hw.hidden_of_printsTo hb hprints
  unfold Objects.listItems Objects.listAt
  rw [h.kept out hlt hP fun h => h]

theorem Eval.Shields.later {α : Type} {A Q x} {a : α} (hx : Shields A P Q x) (hw : w.Sealed P)
    (hrun : x.outcome w = (.ok a, u)) :
    ∃ P', Later A nobody P w P' u ∧ u.Sealed P' ∧ Q P' a := by
  obtain ⟨P', hlater, hu, hQ⟩ := hx w hw
  rw [hrun] at hlater hu hQ
  exact ⟨P', hlater, hu, hQ a rfl⟩

/-! ## Macro objects -/

/-- The macro object `q` keeps the given parameters with their defaults, and calls the function
`c`. -/
def World.HoldsMacro (w : World) (q : Ref) (params : List (String × Value)) (c : Closure) : Prop :=
  ∃ m f, w.macros.get? q = some m ∧ m.function = .function f ∧
    m.params = params.map keptParam ∧ w.functions.get? f = some (.closure c)

theorem World.HoldsMacro.mono {q params c} (h : w.HoldsMacro q params c)
    (hmacros : Extends w.macros u.macros) (hfunctions : Extends w.functions u.functions) :
    u.HoldsMacro q params c := by
  obtain ⟨m, f, hm, hf, hparams, hc⟩ := h
  exact ⟨m, f, (hmacros.2 q (get?_eq_some_lt hm)).trans hm, hf, hparams,
    (hfunctions.2 f (get?_eq_some_lt hc)).trans hc⟩

/-! ## Defaults -/

/-- A name as the content of a node. -/
def Node.Content.ofName (s : String) : Node.Content :=
  .constant (.str s)

/-- The defaults of parameters, evaluated one after the other from the state `w` on in the
activation `r`. A parameter without default has none. Each entry of a signature is a new object. -/
inductive Defaults (call : Call) (r : Ref) (scope : Scope Ident) :
    List Node → Progress → World → List Value → World → Prop where
  | nil {p w} : Defaults call r scope [] p w [] w
  | required {pos name rest p w u ds} (objects : Nat) :
    Defaults call r scope rest p { w with objects } ds u →
    Defaults call r scope (.param pos name none :: rest) p w (.none :: ds) u
  | optional {pos name default rest p q e w v u d ds} (objects : Nat) : Emits scope default p e q →
    (eval call r e).outcome w = (.ok (.value d), v) →
    Defaults call r scope rest q { v with objects } ds u →
    Defaults call r scope (.param pos name (some default) :: rest) p w (d :: ds) u

namespace Compile

variable {scope : Scope Ident}

theorem NamesParams.cons_ofName {pos name default? rest names}
    (h : NamesParams (.param pos name default? :: rest) (names.map .ofName))
    (hc : name.content? = some c) :
    ∃ n others, names = n :: others ∧ c = .ofName n ∧ NamesParams rest (others.map .ofName) := by
  cases names with
  | nil => cases h
  | cons n others =>
    rw [map_cons] at h
    cases h with
    | cons hname hcontent hrest =>
      cases hname
      rw [hc, Option.some.injEq] at hcontent
      exact ⟨n, others, rfl, hcontent, hrest⟩

theorem NamesParams.unique {params names names'} (h : NamesParams params names)
    (h' : NamesParams params names') : names = names' := by
  induction h generalizing names' with
  | nil =>
    cases h'
    rfl
  | cons hname hcontent _ ih =>
    cases h' with
    | cons hname' hcontent' hrest' =>
      cases hname.symm.trans hname'
      cases hcontent.symm.trans hcontent'
      rw [ih hrest']

variable {call : Call} {params : List Node} {p p' : Progress} {es : List Script.Expr}

/-- A signature that is evaluated gives the parameters with their defaults. -/
theorem BuildsSignature.defaults (h : BuildsSignature scope params p es p') :
    ∀ {names : List String} {w u : World} {cells : List Cell},
    NamesParams params (names.map .ofName) → (evalAll call r es).outcome w = (.ok cells, u) →
    ∃ (bindings : List (String × Value)) (tuples : List Value), bindings.map (·.1) = names ∧
      Defaults call r scope params p w (bindings.map (·.2)) u ∧ cells = tuples.map .value ∧
      tuples.filterMap signatureParam? = bindings.map keptParam := by
  induction h with
  | nil =>
    intro names w u cells hnames hrun
    cases names with
    | nil =>
      cases hrun
      exact ⟨[], [], rfl, .nil, rfl, rfl⟩
    | cons => cases hnames
  | @required pos name c rest p p' es hc _ ih =>
    intro names w u cells hnames hrun
    obtain ⟨n, others, rfl, rfl, hothers⟩ := hnames.cons_ofName hc
    obtain ⟨cell, v, cs, rfl, he, hrest⟩ := outcome_evalAll_cons_eq_ok hrun
    cases he
    obtain ⟨bindings, tuples, rfl, hdefaults, rfl, hparams⟩ := ih hothers hrest
    refine ⟨(n, .none) :: bindings,
      .tuple [.ofText n, .none] :: tuples, rfl, .required _ hdefaults, rfl, ?_⟩
    rw [map_cons, ← hparams]
    rfl
  | @optional pos name default c rest p q p' e es hc hemits _ ih =>
    intro names w u cells hnames hrun
    obtain ⟨n, others, rfl, rfl, hothers⟩ := hnames.cons_ofName hc
    obtain ⟨cell, v, cs, rfl, he, hrest⟩ := outcome_evalAll_cons_eq_ok hrun
    -- The entry is a tuple of the name and what the default gives.
    rw [eval] at he
    obtain ⟨cells, v', hitems, he⟩ := outcome_bind_eq_ok he
    obtain ⟨name, v₁, ds, rfl, hname, hds⟩ := outcome_evalAll_cons_eq_ok hitems
    cases hname
    obtain ⟨d, v₂, nothing, rfl, hdefault, hnothing⟩ := outcome_evalAll_cons_eq_ok hds
    cases hnothing
    cases d with
    | value d =>
      cases he
      obtain ⟨bindings, tuples, rfl, hdefaults, rfl, hparams⟩ := ih hothers hrest
      refine ⟨(n, d) :: bindings, .tuple [.ofText n, d] :: tuples, rfl,
        .optional _ hemits hdefault hdefaults, rfl, ?_⟩
      rw [map_cons, ← hparams]
      rfl
    | _ => cases he

/-- The code of a signature assigns temporaries only. -/
theorem BuildsSignature.assigned (h : BuildsSignature scope params p es p') :
    ∀ id ∈ assignedIn es, ∃ k, id = .temp k := by
  have hcontent (c : Node.Content) : (Script.Expr.ofContent c).assigned = [] := by cases c <;> rfl
  induction h with
  | nil => exact forall_mem_nil _
  | required _ _ ih =>
    intro id hid
    simp only [assignedIn, Expr.assigned, hcontent, nil_append] at hid
    exact ih id hid
  | optional _ hemits _ ih =>
    intro id hid
    simp only [assignedIn, Expr.assigned, hcontent, nil_append, append_nil, mem_append] at hid
    rcases hid with hid | hid
    · obtain ⟨v, hv⟩ := (Expr.mem_assigned_iff _).1 hid
      obtain ⟨⟨k, rfl, -⟩, -⟩ := hemits.pieces.bind id v hv
      exact ⟨k, rfl⟩
    · exact ih id hid

end Compile

/-! ## The statements of a definition -/

section

variable {fuel limit : Nat} {frame : Ref}

theorem outcome_eval_frameMethod (hframe : reads? w r .frame = some (.frame frame)) {field}
    (hfield : hasMethod (.frame frame) field = true) :
    (eval (call (fuel + 1)) r (.method (.name .frame) field [])).outcome w =
      (callMethod (call fuel) (.frame frame) field []).outcome w := by
  have hargs : (evalAll (call (fuel + 1)) r []).outcome w = (.ok [], w) := outcome_evalAll_nil
  exact outcome_eval_method field (outcome_read_of_reads? hframe) hfield hargs

theorem outcome_exec_pushFrame (hframe : reads? w r .frame = some (.frame frame)) :
    (exec (call (fuel + 1)) limit r .pushFrame).outcome w = (.ok none, { w with
        frames := w.frames.push { parent := some frame }
        activations := w.activations.modify r (·.assign .frame (.frame w.frames.size)) }) := by
  have hpush : (callMethod (call fuel) (.frame frame) .push []).outcome w =
      (.ok (.frame w.frames.size),
        { w with frames := w.frames.push { parent := some frame } }) := rfl
  exact outcome_exec_assign ((outcome_eval_frameMethod hframe rfl).trans hpush)

theorem outcome_exec_popFrame (hframe : reads? w r .frame = some (.frame frame)) {outer}
    (houter : (w.frame frame).parent = some outer) :
    (exec (call (fuel + 1)) limit r .popFrame).outcome w =
      (.ok none, w.assign r .frame (.frame outer)) := by
  have hpop : (callMethod (call fuel) (.frame frame) .pop []).outcome w =
      (.ok (((w.frame frame).parent.map .frame).getD (.value .none)), w) := rfl
  rw [houter] at hpop
  exact outcome_exec_assign ((outcome_eval_frameMethod hframe rfl).trans hpop)

/-- A function that was defined in the activation `r` and keeps the frame that was opened for it. -/
def MacroFunction (r frame : Ref) (params : List Ident) (body : List Stmt) (c : Closure) : Prop :=
  ∃ u name, c = closureIn u r name params [(.frame, .frame frame)] body

/-- A macro definition begins by making a function of the body; the variable for the frame holds
afterwards what it held before. -/
theorem outcome_macroFunction {a name} (params : List Ident) (body : List Stmt) (hw : w.Scoped)
    (ha : w.activations.get? r = some a) (hownFrame : .frame ∈ a.owned) (hownName : name ∈ a.owned)
    (hname : name ≠ .frame) (hframe : reads? w r .frame = some (.frame frame)) :
    ∃ c v, MacroFunction r w.frames.size params body c ∧
      v.functions.get? w.functions.size = some (.closure c) ∧ v.Scoped ∧ v.contexts = w.contexts ∧
      (v.activations.get? r).map (·.owned) = some a.owned ∧
      reads? v r name = some (.value (.function w.functions.size)) ∧
      (∀ id, id ≠ name → reads? v r id = reads? w r id) ∧
      (execAll (call (fuel + 1)) limit r
        [.pushFrame, .define name params [(.frame, .name .frame)] body, .popFrame]).outcome w =
          (.ok none, v) := by
  let w₁ : World := { w with
    frames := w.frames.push { parent := some frame }
    activations := w.activations.modify r (·.assign .frame (.frame w.frames.size)) }
  let c := closureIn w₁ r name params [(.frame, .frame w.frames.size)] body
  let w₂ : World := { w₁ with
    functions := w₁.functions.push (.closure c)
    activations := w₁.activations.modify r (·.assign name (.value (.function w.functions.size))) }
  let w₃ : World :=
    (w₂.assign r .frame (.frame frame))
  have hscoped₁ : w₁.Scoped :=
    hw.modify r fun _ => rfl
  have hr : r < w₁.activations.size := by
    rw [size_modify]
    exact get?_eq_some_lt ha
  have hscoped₂ : w₂.Scoped := by
    refine Scoped.modify ?_ r fun _ => rfl
    refine hscoped₁.pushFunction fun c' o hc ho => ?_
    cases hc
    cases ho
    exact hr
  have hscoped₃ : w₃.Scoped := hscoped₂.modify r fun _ => rfl
  have ha₁ : w₁.activations.get? r = some (a.assign .frame (.frame w.frames.size)) := by
    rw [get?_modify_self, ha]
    rfl
  have ha₂ : w₂.activations.get? r = some ((a.assign .frame (.frame w.frames.size)).assign name
      (.value (.function w.functions.size))) := by
    rw [get?_modify_self, ha₁]
    rfl
  -- The frame that was opened is in the variable, before and after the function is defined.
  have hread₁ : reads? w₁ r .frame = some (.frame w.frames.size) :=
    reads?_assign_self _ hw.activation ha hownFrame
  have hread₂ : reads? w₂ r .frame = some (.frame w.frames.size) :=
    (reads?_assign_of_ne _ hscoped₁.activation (Ne.symm hname)).trans hread₁
  have hparent : (w₂.frame w.frames.size).parent = some frame := by
    have hopened : w₂.frames.get? w.frames.size = some { parent := some frame } :=
      get?_push_self _ _
    unfold World.frame
    rw [hopened, Option.getD_some]
  have hdefine : (exec (call (fuel + 1)) limit r
      (.define name params [(.frame, .name .frame)] body)).outcome w₁ = (.ok none, w₂) := by
    have hcapture : (captureAll (call (fuel + 1)) r [(.frame, .name .frame)]).outcome w₁ =
        (.ok [(.frame, .frame w.frames.size)], w₁) := by
      rw [captureAll, eval, outcome_bind_of_ok (outcome_read_of_reads? hread₁)]
      rfl
    rw [exec, outcome_bind_of_ok hcapture]
    rfl
  refine ⟨c, w₃, ⟨_, _, rfl⟩, get?_push_self _ _, hscoped₃, rfl, ?_, ?_, fun id hid => ?_, ?_⟩
  · rw [get?_modify_self, ha₂]
    rfl
  · exact (reads?_assign_of_ne _ hscoped₂.activation hname).trans
      (reads?_assign_self _ hscoped₁.activation ha₁ hownName)
  · rcases Decidable.em (id = .frame) with rfl | hne
    · exact (reads?_assign_self _ hscoped₂.activation ha₂ hownFrame).trans hframe.symm
    · calc reads? w₃ r id = reads? w₂ r id := reads?_assign_of_ne _ hscoped₂.activation hne
        _ = reads? w₁ r id := reads?_assign_of_ne _ hscoped₁.activation hid
        _ = reads? w r id := reads?_assign_of_ne _ hw.activation hne
  · rw [outcome_execAll_cons (outcome_exec_pushFrame hframe), outcome_execAll_cons hdefine,
      outcome_execAll_cons (outcome_exec_popFrame hread₂ hparent)]
    rfl

/-- A macro definition ends by wrapping the function up with the parameters, once the signature has
been evaluated. -/
theorem outcome_wrapMacro {name es f cell} (hruntime : reads? w r .runtime = some .runtime)
    (hname : reads? w r name = some (.value (.function f)))
    (hrun : (eval (call (fuel + 1)) r (.helper .wrapMacro [.name name, .ofContent c, .list es,
      .const (.bool false), .const (.bool false), .const (.bool false)])).outcome w =
        (.ok cell, u)) :
    ∃ cells v, (evalAll (call (fuel + 1)) r es).outcome w = (.ok cells, v) ∧
      ∀ tuples : List Value, cells = tuples.map .value →
        ∃ m : Macro, cell = .value (.macroObject v.macros.size) ∧
        u = { v with
          lists := v.lists.push tuples.toArray
          macros := v.macros.push m } ∧
        m.function = .function f ∧ m.params = tuples.filterMap signatureParam? := by
  obtain ⟨cells, v, hargs, hwrap⟩ :=
    outcome_eval_method_eq_ok (outcome_read_of_reads? hruntime) rfl hrun
  obtain ⟨_, _, cells₁, rfl, hfunction, hargs⟩ := outcome_evalAll_cons_eq_ok hargs
  rw [eval, outcome_read_of_reads? hname] at hfunction
  cases hfunction
  obtain ⟨content, _, cells₂, rfl, hcontent, hargs⟩ := outcome_evalAll_cons_eq_ok hargs
  cases c with
  | node n => cases hcontent
  | constant k =>
    cases hcontent
    obtain ⟨list, v₁, cells₃, rfl, hlist, hargs⟩ := outcome_evalAll_cons_eq_ok hargs
    cases hargs
    rw [eval] at hlist
    obtain ⟨items, v₂, hitems, hlist⟩ := outcome_bind_eq_ok hlist
    refine ⟨items, v₂, hitems, ?_⟩
    rintro tuples rfl
    rw [valuesIn_values] at hlist
    cases hlist
    have hitems : { v₂ with lists := v₂.lists.push tuples.toArray }.listItems v₂.lists.size =
        tuples := by
      unfold Objects.listItems Objects.listAt
      rw [get?_push_self, Option.getD_some]
    cases hwrap
    refine ⟨_, rfl, rfl, rfl, ?_⟩
    exact congrArg (filterMap signatureParam?) hitems

theorem ofName_of_publication {rest} (h : publication child c = s :: rest) :
    ∃ name, child = false ∧ c = .ofName name := by
  unfold publication at h
  split at h
  next name =>
    split at h
    · cases h
    next hchild => exact ⟨name, Bool.eq_false_iff.2 hchild, rfl⟩
  next => cases h

/-- A macro is published under its name: as a render variable, and unless the name is private, for
imports. -/
theorem outcome_publication {context} (name : String) {v}
    (hcontext : reads? w r .context = some (.context context)) (hlt : context < w.contexts.size)
    (hname : reads? w r (.localName name) = some (.value v)) :
    ∃ contexts, (execAll (call (fuel + 1)) limit r
        (publication false (.ofName name))).outcome w = (.ok none, { w with contexts }) ∧
      ({ w with contexts }.context context).vars.find? name = some v ∧
      (isPrivate name = false → name ∈ ({ w with contexts }.context context).exported) := by
  have hstore {w : World} (hcontext : reads? w r .context = some (.context context))
      (hlt : context < w.contexts.size) (hname : reads? w r (.localName name) = some (.value v)) :
      ∃ contexts, (execAll (call (fuel + 1)) limit r
          [.setVariable name (.name (.localName name))]).outcome w =
            (.ok none, { w with contexts }) ∧
        ({ w with contexts }.context context).vars.find? name = some v ∧
        ({ w with contexts }.context context).exported = (w.context context).exported := by
    let c : Context := { w.context context with vars := (w.context context).vars.insert name v }
    refine ⟨w.contexts.set context c, ?_, ?_, ?_⟩
    · rw [execAll_singleton, outcome_exec_setVariable hcontext name hname]
      rfl
    · rw [context_set hlt]
      exact Table.find?_insert_self _ _ _
    · rw [context_set hlt]
  unfold publication Node.Content.ofName
  simp only [Bool.false_eq_true, if_false]
  cases hprivate : isPrivate name with
  | true =>
    obtain ⟨contexts, hrun, hfind, -⟩ := hstore hcontext hlt hname
    exact ⟨contexts, hrun, hfind, Bool.noConfusion⟩
  | false =>
    let exporting := w.contexts.set context ((w.context context).addExport name)
    have hexport : (execAll (call (fuel + 1)) limit r [.addExport name]).outcome w =
        (.ok none, { w with contexts := exporting }) := by
      rw [execAll_singleton, outcome_exec_addExport hcontext name]
    have hsize : context < exporting.size := by
      rw [size_set]
      exact hlt
    obtain ⟨contexts, hrun, hfind, hexported⟩ :=
      hstore (w := { w with contexts := exporting }) hcontext hsize hname
    refine ⟨contexts, ?_, hfind, fun _ => ?_⟩
    · rw [if_neg Bool.false_ne_true, outcome_execAll_append hexport]
      exact hrun
    · rw [hexported, context_set hlt]
      exact Context.mem_addExport _ |>.2 (.inr rfl)

end

/-! ## No buffer changes -/

section

variable {call : Call} {limit : Nat} {A : Ref → Prop} (hc : call.Shields) (hr : A r)

include hc hr

omit hc hr in
/-- Publishing a macro is a matter of methods of the context. -/
theorem expr_of_mem_publication (hs : s ∈ publication child c) :
    ∃ e, s = .expr e ∧ e.Obeys apart := by
  unfold publication at hs
  split at hs
  next name =>
    have hset : (Expr.method (.name .context) .setVariable
        [.text name, .name (.localName name)]).Obeys apart :=
      apart_method (apart_name rfl) ⟨trivial, apart_name rfl, trivial⟩
    have hexport : (Expr.method (.name .context) .addExport [.text name]).Obeys apart :=
      apart_method (apart_name rfl) ⟨trivial, trivial⟩
    split at hs
    · cases hs
    · rcases mem_append.1 hs with hs | hs
      · split at hs
        · cases hs
        · exact ⟨_, mem_singleton.1 hs, hexport⟩
      · exact ⟨_, mem_singleton.1 hs, hset⟩
  next => cases hs

/-- Every statement of the definition of a macro leaves all buffers alone. -/
theorem shields_macroDefinition {names es ss} (hes : ObeyIn apart es)
    (hss : Prints .macroOutput false ss)
    (hs : s ∈ macroDefinition c names es ss ++ publication child c) (P : Lists) :
    Shields A P (fun _ c? => c? = none) (exec call limit r s) := by
  have hmethod (field : Attr) : Shields A P (fun _ c? => c? = none)
      (exec call limit r (.assign .frame (.method (.name .frame) field []))) :=
    shields_exec_assign hc hr rfl (apart_method (apart_name rfl) trivial)
  rcases mem_append.1 hs with hs | hs
  · simp only [macroDefinition, mem_cons, not_mem_nil, or_false] at hs
    rcases hs with rfl | rfl | rfl | rfl
    · exact hmethod .push
    · refine shields_define hc hr rfl (fun p hp => ?_)
        (forall_mem_singleton.2 ⟨rfl, apart_name rfl⟩) hss
      obtain ⟨_, -, rfl⟩ := mem_map.1 hp
      rfl
    · exact hmethod .pop
    · exact shields_exec_assign hc hr rfl (apart_method (apart_name rfl)
        ⟨apart_name rfl, obeys_ofContent c, hes, trivial, trivial, trivial, trivial⟩)
  · obtain ⟨e, rfl, he⟩ := expr_of_mem_publication hs
    exact shields_exec_expr hc hr he

end

/-! ## What a definition leaves behind -/

/-- What the definition of a macro leaves in the state `u` when it is executed in the activation `r`
from the state `w` on: the defaults were evaluated in this activation, where all variables held what
they hold in `w`, and the macro object `m` with the function `f` is bound and published. -/
structure Defined (call : Call) (r context : Ref) (scope : Scope Ident) (params : List Node)
    (q : Progress) (c : Node.Content) (ss : List Stmt) (child : Bool) (w u : World) (m : Ref)
    (bindings : List (String × Value)) (f : Closure) : Prop where
  defaults : ∃ before after, (∀ id, id ≠ .macroName c.text → reads? before r id = reads? w r id) ∧
      Defaults call r scope params q before (bindings.map (·.2)) after
  function : MacroFunction r w.frames.size ((bindings.map (·.1)).map .localName)
    (printed .macroOutput ss) f
  held : u.HoldsMacro m bindings f
  named : reads? u r (.localName c.text) = some (.value (.macroObject m))
  others (id : Ident) : (∀ k, id ≠ .temp k) → id ≠ .macroName c.text → id ≠ .localName c.text →
    reads? u r id = reads? w r id
  published (name : String) : child = false → c = .ofName name →
    (u.context context).vars.find? name = some (.macroObject m) ∧
      (isPrivate name = false → name ∈ (u.context context).exported)

/-- The definition of a macro, once it was executed, has left the macro object behind. -/
theorem defines_macro {fuel limit frame context scope params q p' names es ss}
    (hsignature : BuildsSignature scope params q es p') (hscope : Unbuffered scope)
    (hnames : NamesParams params (names.map .ofName)) (hss : Prints .macroOutput false ss)
    (hsealed : w.Sealed P)
    (hw : Equipped w r context frame
      (macroDefinition c (names.map .ofName) es ss ++ publication child c))
    (hrun : (execAll (call (fuel + 1)) limit r
      (macroDefinition c (names.map .ofName) es ss ++ publication child c)).outcome w =
        (.ok none, u)) :
    ∃ m bindings f, bindings.map (·.1) = names ∧
      Defined (call (fuel + 1)) r context scope params q c ss child w u m bindings f := by
  obtain ⟨a, ha, howned⟩ := hw.owns
  have hparams : (names.map Node.Content.ofName).map (fun p => Ident.localName p.text) =
      names.map .localName := by
    rw [map_map]
    rfl
  let wrapped : Expr := .helper .wrapMacro [.name (.macroName c.text), .ofContent c, .list es,
    .const (.bool false), .const (.bool false), .const (.bool false)]
  have hsplit : macroDefinition c (names.map .ofName) es ss ++ publication child c =
      [.pushFrame, .define (.macroName c.text) (names.map .localName) [(.frame, .name .frame)]
        (printed .macroOutput ss), .popFrame] ++
        (.assign (.localName c.text) wrapped :: publication child c) := by
    rw [← hparams]
    rfl
  rw [hsplit] at hrun howned
  obtain ⟨f, before, hfunction, hget, hscoped, hcontexts, hown, hname, hothers, hstart⟩ :=
    outcome_macroFunction (names.map .localName) (printed .macroOutput ss) hw.nesting ha
      (howned .frame mem_cons_self)
      (howned (.macroName c.text) (mem_cons_of_mem _ mem_cons_self)) Ident.noConfusion
      hw.frame
  rw [outcome_execAll_append hstart, execAll] at hrun
  obtain ⟨o, v, hassign, hrun⟩ := outcome_bind_eq_ok hrun
  obtain ⟨cell, v', heval, hassign⟩ := outcome_bind_eq_ok hassign
  cases hassign
  -- The signature is evaluated between the function and the macro object.
  obtain ⟨cells, after, hcells, hwrap⟩ := outcome_wrapMacro
    ((hothers .runtime Ident.noConfusion).trans hw.runtime) hname heval
  obtain ⟨bindings, tuples, hbindings, hdefaults, hvalues, hkept⟩ :=
    hsignature.defaults hnames hcells
  obtain ⟨m, rfl, rfl, hmfunction, hmparams⟩ := hwrap tuples hvalues
  have hkeeps : Extends before.functions after.functions := by
    have hcalls := shields_call (fuel + 1)
    have hes := hsignature.apart hscope
    have hstatements : ∀ s ∈ macroDefinition c (names.map .ofName) es ss ++ publication child c,
        ∀ P, Shields (· = r) P (fun _ c? => c? = none) (exec (call (fuel + 1)) limit r s) :=
      fun s hs P => shields_macroDefinition (A := (· = r)) hcalls rfl hes hss hs P
    rw [hsplit] at hstatements
    have hprefix := shields_execAll (fun s hs => hstatements s (mem_append_left _ hs)) P
    obtain ⟨P₁, -, hbefore, -⟩ := hprefix.later hsealed hstart
    obtain ⟨_, hlater, -⟩ := (shields_evalAll hcalls rfl es hes).later hbefore hcells
    exact hlater.functions
  have hobject {contexts : Store Context} {activations : Store Activation} : ({ after with
        lists := after.lists.push tuples.toArray
        macros := after.macros.push m
        contexts := contexts
        activations := activations } : World).HoldsMacro after.macros.size bindings f :=
    ⟨m, w.functions.size, get?_push_self _ _, hmfunction, hmparams.trans hkept,
      (hkeeps.2 _ (get?_eq_some_lt hget)).trans hget⟩
  -- The variable of the macro holds the object, and the context is still where it was.
  have hassigned : ∀ id ∈ wrapped.assigned, ∃ k, id = .temp k := by
    intro id hid
    have hcontent : (Expr.ofContent c).assigned = [] := by cases c <;> rfl
    refine hsignature.assigned id ?_
    simpa [wrapped, Expr.helper, Expr.method, Expr.assigned, assignedIn, hcontent] using hid
  obtain ⟨a', ha', howned'⟩ := Option.map_eq_some_iff.1 hown
  obtain ⟨hlocal, hkeptReads⟩ := reads?_assigned hassigned hscoped ha'
    (howned' ▸ howned (.localName c.text) (mem_cons_of_mem _ (mem_cons_of_mem _
      (mem_cons_of_mem _ mem_cons_self)))) heval
  have hcontext := (hkeptReads .context (fun ⟨k, h⟩ => Ident.noConfusion h) Ident.noConfusion).trans
    ((hothers .context Ident.noConfusion).trans hw.context)
  have hsize := (onward_eval (fuel + 1) r before wrapped).size
  rw [heval, hcontexts] at hsize
  have hunchanged (id : Ident) (htemp : ∀ k, id ≠ .temp k) (hfunction : id ≠ .macroName c.text)
      (hobject : id ≠ .localName c.text) :=
    (hkeptReads id (fun ⟨k, h⟩ => htemp k h) hobject).trans (hothers id hfunction)
  rcases hpublished : publication child c with _ | ⟨s, rest⟩
  · -- Nothing is published: the template has a parent.
    rw [hpublished] at hrun
    cases hrun
    refine ⟨after.macros.size, bindings, f, hbindings, ⟨before, after, hothers, hdefaults⟩,
      hbindings ▸ hfunction, hobject, hlocal, hunchanged, ?_⟩
    rintro name rfl rfl
    exact absurd hpublished (by simp [publication, Node.Content.ofName])
  · obtain ⟨name, rfl, rfl⟩ := ofName_of_publication hpublished
    obtain ⟨contexts, houtcome, hfind, hexported⟩ :=
      outcome_publication name hcontext (Nat.lt_of_lt_of_le hw.lt hsize) hlocal
    obtain rfl := (Prod.mk.inj (houtcome.symm.trans hrun)).2
    refine ⟨after.macros.size, bindings, f, hbindings, ⟨before, after, hothers, hdefaults⟩,
      hbindings ▸ hfunction, hobject, hlocal, hunchanged, ?_⟩
    rintro other - hother
    cases hother
    exact ⟨hfind, hexported⟩

end Stencil
