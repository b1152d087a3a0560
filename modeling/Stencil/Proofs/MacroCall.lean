import Stencil.Proofs.MacroDefinition

/-!
# Macros, from the definition to the call

Executing the definition of a macro makes a function of its body and evaluates the defaults of its
parameters, once, in the function that the definition stands in (`Defaults`); the macro object keeps
both (`World.HoldsMacro`). A call that reaches the object, on whatever way, binds the parameters
(`Engine.bound`), runs the body in a new activation, and gives the text that the body has printed,
piece by piece. Neither adds anything to a buffer of another function (`macro_calls_end_to_end`).
-/

namespace Stencil

open Script Compile Engine Eval List Store Table World

variable {P P' : Lists} {w u : World} {r : Ref}

/-! ## Macro objects -/

/-- The state in which the function of a macro is called: the keyword arguments stand in a new
dictionary, and if there are none, an empty one is made instead of it. -/
def World.passing (w : World) (keywords : List (Value × Value)) : World :=
  let d := display w.toHeap keywords
  if d.entries.isEmpty then { w with dicts := (w.dicts.push d).push {} }
  else { w with dicts := w.dicts.push d }

namespace Engine

variable {fuel : Nat} {q l : Ref} {params : List (String × Value)} {c : Closure}
  {positional : List Value} {keywords : List (Value × Value)}

theorem outcome_bindParams {kwargs} (hl : w.listItems l = positional)
    (hd : ∀ name, w.findEntry? (w.dictEntries kwargs) (.ofText name) = lastUnder? name keywords) :
    (liftM (bindParams (.list l) (.dict kwargs) 0 (params.map keptParam)) :
        Eval (List Value)).outcome w =
      (.ok (params.mapIdx (bound positional keywords)), w) := by
  have hperform := perform_bindParams hl hd params 0
  simp only [Nat.zero_add] at hperform
  rw [outcome_lift, hperform]
  rfl

theorem outcome_call_function {f} (hc : w.functions.get? f = some (.closure c))
    (args : List Value) : ((call (fuel + 1)).value (.function f) args).outcome w =
      (callClosure (call fuel) fuel c (args.map .value)).outcome w := by
  show (callFunction (call fuel) fuel f (args.map .value)).outcome w = _
  unfold callFunction
  rw [outcome_get_bind, hc]

/-- The call of a macro object calls its function with the values of the parameters. -/
theorem outcome_call_macro (hw : w.HoldsMacro q params c) (hl : w.listItems l = positional) :
    ((call (fuel + 2)).value (.macroObject q) [.list l, .dict w.dicts.size]).outcome
        { w with dicts := w.dicts.push (display w.toHeap keywords) } =
      (callClosure (call fuel) fuel c
        ((params.mapIdx (bound positional keywords)).map .value)).outcome (w.passing keywords) := by
  obtain ⟨m, f, hm, hf, hparams, hc⟩ := hw
  let d := display w.toHeap keywords
  have hobject : w.macroAt q = m := by rw [Heap.macroAt, hm, Option.getD_some]
  have hfind (u : Heap) (name : String) :
      u.findEntry? d.entries (.ofText name) = lastUnder? name keywords :=
    w.toHeap.findEntry?_display u keywords name
  -- Whatever dictionary the keyword arguments stand in, the rest is the same.
  have hrun (u : World) (kwargs : Ref) (hlists : u.listItems l = positional)
      (hentries : ∀ name, u.findEntry? (u.dictEntries kwargs) (.ofText name) =
        lastUnder? name keywords) (hfunctions : u.functions = w.functions) :
      (do
        let vs ← bindParams (.list l) (.dict kwargs) 0 (w.macroAt q).params
        (call (fuel + 1)).value (w.macroAt q).function vs : Eval Value).outcome u =
      (callClosure (call fuel) fuel c
        ((params.mapIdx (bound positional keywords)).map .value)).outcome u := by
    rw [hobject, hparams, hf, outcome_bind_of_ok (outcome_bindParams hlists hentries)]
    exact outcome_call_function (by rwa [hfunctions]) _
  have hentries : { w with dicts := w.dicts.push d }.dictEntries w.dicts.size = d.entries := by
    unfold Objects.dictEntries Objects.dictAt
    rw [get?_push_self, Option.getD_some]
  have htruthy : { w with dicts := w.dicts.push d }.truthy (.dict w.dicts.size) =
      !d.entries.isEmpty := by
    rw [← hentries]
    rfl
  show (if { w with dicts := w.dicts.push d }.truthy (.dict w.dicts.size) = true then _ else _ :
    Eval Value).outcome _ = _
  rw [htruthy]
  cases hempty : d.entries.isEmpty with
  | false =>
    refine (hrun { w with dicts := w.dicts.push d } w.dicts.size hl (fun name => ?_) rfl).trans ?_
    · rw [hentries]
      exact hfind _ name
    · exact congrArg _ (if_neg (Bool.eq_false_iff.1 hempty)).symm
  | true =>
    refine (hrun { w with dicts := (w.dicts.push d).push {} } (w.dicts.push d).size hl
      (fun name => ?_) rfl).trans ?_
    · have hnew : { w with dicts := (w.dicts.push d).push {} }.dictEntries (w.dicts.push d).size =
          d.entries := by
        unfold Objects.dictEntries Objects.dictAt
        rw [get?_push_self, isEmpty_iff.1 hempty]
        rfl
      rw [hnew]
      exact hfind _ name
    · exact congrArg _ (if_pos hempty).symm

end Engine

/-! ## Call sites -/

theorem World.Sealed.pushHidden {A} (hw : w.Sealed P) (items : Array Value)
    (hitems : ∀ v ∈ items.toList, v.Within P) : { w with lists := w.lists.push items }.Sealed P ∧
      Later A nobody P w P { w with lists := w.lists.push items } := by
  have hsize : w.lists.size ≤ (w.lists.push items).size := by
    rw [size_push]
    exact Nat.le_succ _
  have hkept (l : Ref) (hl : l < w.lists.size) : (w.lists.push items).get? l = w.lists.get? l :=
    w.lists.get?_push_of_lt items hl
  constructor
  · exact hw.objects (C := False) ⟨fun _ h => h, hsize, fun _ _ h => h, fun l hl _ => hkept l hl,
      Nat.le_refl _, fun h l hl => Nat.lt_of_lt_of_le (h l hl) hsize, nofun⟩
      (hw.heap.objects.holds.pushHidden hitems)
  · exact ⟨fun _ h => h, hsize, fun _ _ h => h, fun l hl _ _ => hkept l hl, fun _ _ _ => rfl,
      fun q a ha => ⟨a, ha, rfl, fun _ _ => rfl⟩, .refl _, .refl _, Nat.le_refl _⟩

/-- From the state `u` on, the callee of a call gives the macro object `q`, and then the arguments
give `positional` and `keywords`, up to the state `v`. -/
structure Script.Reaches (call : Call) (r : Ref) (callee : Ident) (f : Expr) (args : List Expr)
    (entries : List (Expr × Expr)) (u : World) (q : Ref) (positional : List Value)
    (keywords : List (Value × Value)) (v : World) : Prop where
  runtime : reads? u r .runtime = some .runtime
  owns : ∃ a, u.activations.get? r = some a ∧ callee ∈ a.owned
  evaluated : ∃ u₁ u₂, (eval call r f).outcome u = (.ok (.value (.macroObject q)), u₁) ∧
    (evalAll call r args).outcome (u₁.assign r callee (.value (.macroObject q))) =
        (.ok (positional.map .value), u₂) ∧
    (evalEntries call r entries).outcome { u₂ with
      lists := u₂.lists.push positional.toArray } = (.ok keywords, v)

namespace Script

variable {fuel : Nat} {q : Ref} {callee : Ident} {f : Expr} {args : List Expr}
  {entries : List (Expr × Expr)} {positional : List Value} {keywords : List (Value × Value)}
  {v : World}

theorem outcome_eval_list {call}
    (h : (evalAll call r args).outcome w = (.ok (positional.map .value), u)) :
    (eval call r (.list args)).outcome w =
      (.ok (.value (.list u.lists.size)), { u with lists := u.lists.push positional.toArray }) := by
  rw [eval, outcome_bind_of_ok h, valuesIn_values]
  rfl

theorem outcome_eval_dict {call} (h : (evalEntries call r entries).outcome w = (.ok keywords, u)) :
    (eval call r (.dict entries)).outcome w = (.ok (.value (.dict u.dicts.size)),
      { u with dicts := u.dicts.push (display u.toHeap keywords) }) := by
  rw [eval, outcome_bind_of_ok h]
  rfl

/-- The test of a call site, which keeps what it tests. -/
theorem outcome_eval_isMacro {v} {b : Bool}
    (hruntime : (read r .runtime).outcome w = (.ok .runtime, w))
    (hf : (eval (call (fuel + 1)) r f).outcome w = (.ok (.value v), u))
    (hv : ∀ w, (Engine.callMethod (call fuel) .runtime .isMacro [.value v]).outcome w =
      (.ok (.value (.bool b)), w)) :
    (eval (call (fuel + 1)) r (.helper .isMacro [.bind callee f])).outcome w =
      (.ok (.value (.bool b)), u.assign r callee (.value v)) := by
  have hbind : (eval (call (fuel + 1)) r (.bind callee f)).outcome w =
      (.ok (.value v), u.assign r callee (.value v)) := by
    rw [eval, outcome_bind_of_ok hf]
    rfl
  exact (outcome_eval_method .isMacro hruntime rfl
    (outcome_evalAll_cons hbind outcome_evalAll_nil)).trans (hv _)

/-- A call that reaches a macro calls it with the arguments in a list, which nothing else knows, and
in a dictionary. -/
theorem Reaches.outcome_dualCall (hu : u.Sealed P)
    (ho : (dualCall callee f args entries).Obeys apart)
    (h : Reaches (call (fuel + 1)) r callee f args entries u q positional keywords v) :
    ∃ l P', v.listItems l = positional ∧ v.Sealed P' ∧ (∀ x ∈ positional, x.Within P') ∧
      PairsWithin P' keywords ∧ Extends u.functions v.functions ∧ Extends u.macros v.macros ∧
      (eval (call (fuel + 1)) r (dualCall callee f args entries)).outcome u =
        ((call (fuel + 1)).value (.macroObject q) [.list l, .dict v.dicts.size] >>= fun x =>
          pure (Cell.value x)).outcome
            { v with dicts := v.dicts.push (display v.toHeap keywords) } := by
  obtain ⟨u₁, u₂, hf, hargs, hentries⟩ := h.evaluated
  obtain ⟨a, ha, hcallee⟩ := h.owns
  have hshields := shields_call (fuel + 1)
  -- What leaves buffers alone in the call site: the callee, the variable for it and the arguments.
  obtain ⟨hbind, hoargs, hoentries⟩ : (Expr.bind callee f).Obeys apart ∧ ObeyIn apart args ∧
      ObeyInEntries apart entries := by
    obtain ⟨htest, hobject, -⟩ := ho
    obtain ⟨-, hbind, -⟩ := htest.resolve_left id
    obtain ⟨-, hoargs, hoentries, -⟩ := hobject.resolve_left id
    exact ⟨hbind, hoargs, hoentries⟩
  obtain ⟨P₁, hlater₁, hu₁, -⟩ :=
    (shields_eval (A := (· = r)) hshields rfl f hbind.2).later hu hf
  obtain ⟨a₁, ha₁, howned, -⟩ := hlater₁.own r a ha
  have hobject : (Cell.value (.macroObject q)).Within P₁ := trivial
  obtain ⟨P₂, hlater₂, hu₂, -⟩ :=
    (shields_write (A := (· = r)) rfl hbind.1 hobject).later hu₁ (outcome_write _ _ _ _)
  obtain ⟨P₃, hlater₃, hu₃, hpositional⟩ :=
    (shields_evalAll (A := (· = r)) hshields rfl args hoargs).later hu₂ hargs
  -- The list of the positional arguments is not public, so the keyword arguments cannot change it.
  have hpositional : ∀ x ∈ positional, x.Within P₃ := fun x hx => hpositional _ (mem_map_of_mem hx)
  obtain ⟨hu₄, hlater₄⟩ := hu₃.pushHidden positional.toArray hpositional
  obtain ⟨P₅, hlater₅, hv, hkeywords⟩ :=
    (shields_evalEntries (A := (· = r)) hshields rfl entries hoentries).later hu₄ hentries
  have hlater := ((hlater₁.trans hlater₂).trans hlater₃).trans (hlater₄.trans hlater₅)
  refine ⟨u₂.lists.size, P₅, ?_, hv, fun x hx => (hpositional x hx).mono hlater₅.mono, hkeywords,
    hlater.functions, hlater.macros, ?_⟩
  · have hlt : u₂.lists.size < (u₂.lists.push positional.toArray).size := by
      rw [size_push]
      exact Nat.lt_succ_self _
    have hkept := hlater₅.kept u₂.lists.size hlt
      (fun hP => Nat.lt_irrefl _ (hu₃.heap.objects.exist _ hP)) id
    unfold Objects.listItems Objects.listAt
    rw [hkept, get?_push_self, Option.getD_some]
  · -- The callee is a macro, so the call passes the arguments as two objects.
    have hread : (read r callee).outcome (u₁.assign r callee (.value (.macroObject q))) =
          (.ok (.value (.macroObject q)), u₁.assign r callee (.value (.macroObject q))) := by
      refine outcome_read_own (a := a₁.assign callee (.value (.macroObject q))) ?_
        (howned ▸ hcallee) (find?_insert_self _ _ _)
      exact (get?_modify_self _ _ _).trans (congrArg _ ha₁)
    have hcells := outcome_evalAll_cons (outcome_eval_list hargs)
      (outcome_evalAll_cons (outcome_eval_dict hentries) outcome_evalAll_nil)
    rw [dualCall, eval, outcome_bind_of_ok (outcome_eval_isMacro
      (outcome_read_of_reads? h.runtime) hf fun _ => rfl)]
    show (eval (call (fuel + 1)) r (.call (.name callee) [.list args, .dict entries])).outcome _ = _
    rw [eval, eval, outcome_bind_of_ok hread, outcome_bind_of_ok hcells]
    rfl

end Script

/-! ## What a call gives -/

/-- The outcome of the call of a function that prints, given the record of its body: the text that
its texts make up, in order, if the body comes to its end, and else what has stopped the body. -/
def ReturnsPrinted : Except Halt (Option Cell × List Value) × World →
    Except Halt Cell × World → Prop
  | (.error e, v), result => result = (.error e, v)
  | (.ok (returned?, texts), v), result => returned? = none ∧
    ∃ s o objects, Spells texts s ∧ result = (.ok (.value (.str (o := o) s)), { v with objects })

/-- The arguments of a macro are put into new dictionaries only. -/
theorem World.Sealed.passing (hw : w.Sealed P) {keywords} (h : PairsWithin P keywords) :
    ∃ P', Later nobody nobody P w P' (w.passing keywords) ∧ (w.passing keywords).Sealed P' := by
  have hnew {P : Lists} {w : World} (hw : w.Sealed P) {d : Dict} (hd : PairsWithin P d.entries) :
      ∃ P', Later nobody nobody P w P' { w with dicts := w.dicts.push d } ∧
        { w with dicts := w.dicts.push d }.Sealed P' := by
    obtain ⟨P', hlater, hsealed, -⟩ :=
      (Shields.lift (guards_newDict hd)).later hw rfl
    exact ⟨P', hlater, hsealed⟩
  obtain ⟨P₁, hlater₁, hw₁⟩ := hnew hw (pairsWithin_display w.toHeap h)
  unfold World.passing
  dsimp only
  split
  · obtain ⟨P₂, hlater₂, hw₂⟩ := hnew hw₁ (d := {}) (forall_mem_nil _)
    exact ⟨P₂, hlater₁.trans hlater₂, hw₂⟩
  · exact ⟨P₁, hlater₁, hw₁⟩

theorem World.passing_eq (w : World) (keywords : List (Value × Value)) :
    ∃ dicts, w.passing keywords = { w with dicts } := by
  unfold passing
  dsimp only
  split
  · exact ⟨_, rfl⟩
  · exact ⟨_, rfl⟩

section

variable {fuel : Nat} {c : Closure} {ss : List Stmt}

/-- The call of a function that prints and does not return before its end. -/
theorem Engine.returnsPrinted_callClosure (hw : w.Sealed P) (hc : c.Within P) {args}
    (hargs : ∀ a ∈ args, a.Within P) (harity : args.length = c.params.length)
    (hbody : c.body = printed .macroOutput ss) (howned : .macroOutput ∈ c.owned)
    (hprints : Prints .macroOutput false ss) : ReturnsPrinted
      ((recordAll (call (fuel + 1)) (fuel + 1) w.activations.size .macroOutput ss).outcome
        (c.started .macroOutput args w))
      ((callClosure (call (fuel + 1)) (fuel + 1) c args >>= fun x =>
        pure (Cell.value x)).outcome w) := by
  have hnone : arityMessage? c.name ⟨c.params.map (·.text), []⟩ args.length = none := by
    simp [arityMessage?, harity]
  have hout := Closure.printsTo_started (w := w) args howned
  have hfills : Fills w.activations.size .macroOutput w.lists.size P (fun _ => Recorded false)
      (recordAll (call (fuel + 1)) (fuel + 1) w.activations.size .macroOutput ss) :=
    hprints.fills (shields_call _) rfl (collects_call _)
  obtain ⟨P', hlater, hu, hrecorded⟩ := hfills _ (hw.started hc hargs rfl).1 hout
  rw [outcome_bind, outcome_callClosure_printed hbody hnone]
  rcases hrecord : (recordAll (call (fuel + 1)) (fuel + 1) w.activations.size .macroOutput
      ss).outcome (c.started .macroOutput args w) with ⟨e | ⟨returned?, texts⟩, u⟩ <;>
    rw [hrecord] at hlater hu hrecorded
  · rw [outcome_bind_of_error hrecord]
    rfl
  · rw [outcome_bind_of_ok hrecord]
    obtain ⟨vs, hvs, hprinted⟩ := hrecorded _ rfl
    obtain rfl : returned? = none := hprinted.ends rfl
    rw [Closure.listItems_started, nil_append] at hvs
    obtain rfl : texts = vs := hprinted.printed
    obtain ⟨s, hs⟩ := exists_spells hprinted.texts
    have hbuffer := hlater.printsTo rfl hout
    obtain ⟨items, hitems⟩ := exists_get?_of_lt (hu.hidden_of_printsTo rfl hbuffer).1
    have hlist : items.toList = texts := by
      rw [← hvs, Objects.listItems, Objects.listAt, hitems, Option.getD_some]
    obtain ⟨origin, objects, hjoined⟩ :=
      outcome_eval_joined fuel hbuffer.outcome_read hitems (hlist ▸ hs)
    have hfinish : (finish (call (fuel + 1)) w.activations.size .macroOutput none).outcome u =
        (.ok (.str (o := origin) s), { u with objects }) := by
      rw [finish, outcome_bind_of_ok hjoined]
      rfl
    refine ⟨rfl, s, origin, objects, hs, ?_⟩
    rw [hfinish]
    rfl

variable {q : Ref} {callee : Ident} {f : Expr} {args : List Expr}
  {entries : List (Expr × Expr)} {positional : List Value} {keywords : List (Value × Value)}
  {v : World} {params : List (String × Value)}

/-- What a macro binds its parameters to refers to public lists only. -/
theorem Engine.within_bound (hpositional : ∀ x ∈ positional, x.Within P)
    (hkeywords : PairsWithin P keywords) {param} (hparam : param.2.Within P) (i : Nat) :
    (bound positional keywords i param).Within P := by
  unfold bound
  cases hget : positional[i]? with
  | some x => exact hpositional x (mem_of_getElem? hget)
  | none =>
    cases hfind : lastUnder? param.1 keywords with
    | some x =>
      obtain ⟨key, hkey⟩ := mem_of_lastUnder? hfind
      exact (hkeywords _ hkey).2
    | none => exact hparam

/-- A call that reaches a macro gives what the body of the macro prints. -/
theorem Script.Reaches.returnsPrinted
    (h : Reaches (call (fuel + 3)) r callee f args entries u q positional keywords v)
    (hu : u.Sealed P) (ho : (dualCall callee f args entries).Obeys apart)
    (hobject : u.HoldsMacro q params c) (harity : params.length = c.params.length)
    (hbody : c.body = printed .macroOutput ss) (howned : .macroOutput ∈ c.owned)
    (hprints : Prints .macroOutput false ss) :
    ReturnsPrinted
      ((recordAll (call (fuel + 1)) (fuel + 1) v.activations.size .macroOutput ss).outcome
        (c.started .macroOutput ((params.mapIdx (bound positional keywords)).map .value)
          (v.passing keywords)))
      ((eval (call (fuel + 3)) r (dualCall callee f args entries)).outcome u) := by
  obtain ⟨l, P₁, hl, hv, hpositional, hkeywords, hfunctions, hmacros, houtcome⟩ :=
    h.outcome_dualCall hu ho
  have hheld := hobject.mono hmacros hfunctions
  obtain ⟨P₂, hlater, hpassing⟩ := hv.passing hkeywords
  rw [houtcome, outcome_bind, outcome_call_macro hheld hl, ← outcome_bind]
  obtain ⟨m, g, hm, hf, hparams, hc⟩ := hheld
  have hclosure : c.Within P₁ := hv.functions g _ hc
  have hactivations : (v.passing keywords).activations = v.activations := by
    obtain ⟨dicts, hdicts⟩ := v.passing_eq keywords
    rw [hdicts]
  rw [← hactivations]
  refine returnsPrinted_callClosure hpassing (hclosure.mono hlater.mono) ?_ ?_ hbody howned hprints
  · intro cell hcell
    obtain ⟨x, hx, rfl⟩ := mem_map.1 hcell
    obtain ⟨i, hi, rfl⟩ := mem_mapIdx.1 hx
    have hdefault : params[i].2.Within P₁ :=
      (hv.heap.surroundings.macros q m hm).params (keptParam params[i])
        (hparams ▸ mem_map_of_mem (getElem_mem hi))
    exact (within_bound hpositional hkeywords hdefault i).mono hlater.mono
  · rw [length_map, length_mapIdx, harity]

end

/-! ## From the definition to the call -/

/-- The state in which the body of a macro begins to run. -/
def Closure.entered (f : Closure) (bindings : List (String × Value)) (positional : List Value)
    (keywords : List (Value × Value)) (v : World) : World :=
  f.started .macroOutput ((bindings.mapIdx (bound positional keywords)).map .value)
    (v.passing keywords)

/-- What the function of a macro finds in its variables when it begins. -/
theorem MacroFunction.reads?_entered {frame bindings body f}
    (hf : MacroFunction r frame ((bindings.map (·.1)).map .localName) body f)
    (hdistinct : (bindings.map (·.1)).Nodup) (positional : List Value)
    (keywords : List (Value × Value)) (v : World) :
    (∀ (i : Nat) (p : String × Value), bindings[i]? = some p →
      reads? (f.entered bindings positional keywords v) v.activations.size (.localName p.1) =
        some (.value (bound positional keywords i p))) ∧
      reads? (f.entered bindings positional keywords v) v.activations.size .frame =
        some (.frame frame) := by
  obtain ⟨u, name, rfl⟩ := hf
  let values := (bindings.mapIdx (bound positional keywords)).map Cell.value
  let idents := (bindings.map (·.1)).map Ident.localName
  obtain ⟨dicts, hpassing⟩ := v.passing_eq keywords
  have hactivation : ((closureIn u r name idents [(.frame, .frame frame)] body).entered bindings
      positional keywords v).activations.get? v.activations.size =
        some (((closureIn u r name idents [(.frame, .frame frame)] body).activation values).assign
          .macroOutput (.value (.list v.lists.size))) := by
    unfold Closure.entered Closure.started
    rw [hpassing]
    exact get?_push_self _ _
  -- The function owns its parameters and the variable for the frame, and they are bound once.
  have howned {id : Ident} (hid : id ∈ idents ++ [.frame]) :
      id ∈ ownedBy (idents ++ [.frame]) body :=
    mem_eraseDups.2 (mem_append_left _ hid)
  have hkeys : (idents.zip values ++ [(Ident.frame, Cell.frame frame)]).map (·.1) =
      idents ++ [.frame] := by
    rw [map_append, map_fst_zip]
    · rfl
    · simp [idents, values]
  have hnodup : ((idents.zip values ++ [(Ident.frame, Cell.frame frame)]).map (·.1)).Nodup := by
    rw [hkeys, nodup_append]
    refine ⟨?_, pairwise_singleton _ _, ?_⟩
    · exact Pairwise.map _ (fun _ _ h => mt Ident.localName.inj h) hdistinct
    · intro id hid other hother
      obtain ⟨_, -, rfl⟩ := mem_map.1 hid
      rw [mem_singleton.1 hother]
      exact Ident.noConfusion
  have hread {id : Ident} {x : Cell} (hid : id ≠ .macroOutput)
      (hmem : (id, x) ∈ idents.zip values ++ [(Ident.frame, Cell.frame frame)]) :
      reads? ((closureIn u r name idents [(.frame, .frame frame)] body).entered bindings
        positional keywords v) v.activations.size id = some x := by
    have hid' : id ∈ idents ++ [.frame] := hkeys ▸ mem_map_of_mem hmem
    refine (reads?_own hactivation (howned hid')).trans ?_
    exact (find?_insert_of_ne _ hid _).trans (find?_ofList_of_mem hnodup hmem)
  constructor
  · intro i p hp
    refine hread Ident.noConfusion (mem_append_left _ (mem_of_getElem? (i := i) ?_))
    rw [getElem?_zip_eq_some]
    constructor
    · simp [idents, hp]
    · simp [values, hp]
  · exact hread Ident.noConfusion (mem_append_right _ mem_cons_self)

/-- What a call of a macro comes to, from the state `u` on, when the arguments have been evaluated
up to the state `v`: the parameters are bound, the call gives the text that the body prints, and no
buffer that is there changes. -/
structure Called (fuel : Nat) (r frame : Ref) (e : Expr) (u v : World) (positional : List Value)
    (keywords : List (Value × Value)) (bindings : List (String × Value)) (ss : List Stmt)
    (f : Closure) : Prop where
  bound (i : Nat) (p : String × Value) : bindings[i]? = some p →
    reads? (f.entered bindings positional keywords v) v.activations.size (.localName p.1) =
      some (.value (bound positional keywords i p))
  frame : reads? (f.entered bindings positional keywords v) v.activations.size .frame =
    some (.frame frame)
  result : ReturnsPrinted
    ((recordAll (call (fuel + 1)) (fuel + 1) v.activations.size .macroOutput ss).outcome
      (f.entered bindings positional keywords v))
    ((eval (call (fuel + 3)) r e).outcome u)
  buffers : u.KeepsBuffers ((eval (call (fuel + 3)) r e).outcome u).2

/-- The definition of a macro evaluates the defaults of its parameters once, where it stands, and
leaves the macro object behind. Every call that reaches the object afterwards binds each parameter
to the positional argument at its place, else to the last keyword argument under its name, else to
its default; arguments that no parameter takes do not count. The body runs with these variables, and
the call gives what the body prints. Neither the definition nor a call changes a buffer. -/
theorem macro_calls_end_to_end {site : Site} {scope scope' : Scope Ident} {pos : Position}
    {name body : Node} {params : List Node} {names : List String} {p p' : Progress}
    {code : List Stmt} {context frame : Ref} (fuel limit : Nat)
    (hcode : Gives (stmt site scope (.macroDef pos name params body)) p (code, scope') p')
    (hscope : Unbuffered scope) (hnames : NamesParams params (names.map .ofName))
    (hdistinct : names.Nodup) (hw : w.Sealed P) (hready : Equipped w r context frame code) :
    w.KeepsBuffers ((execAll (Engine.call (fuel + 1)) limit r code).outcome w).2 ∧
    ∀ w', (execAll (Engine.call (fuel + 1)) limit r code).outcome w = (.ok none, w') →
      ∃ c q ss inner m bindings f, name.content? = some c ∧ bindings.map (·.1) = names ∧
        Builds { site with buffer := .macroOutput } ((names.map .ofName).foldl bindLocal scope.push)
          body p ss inner q ∧
        Defined (Engine.call (fuel + 1)) r context scope params q c ss p'.child w w' m bindings f ∧
        (∃ P', w'.Sealed P') ∧
        (∀ positional keywords, bindings.mapIdx (Engine.bound (positional.take bindings.length)
          (keywords.filter fun e => bindings.any fun p => e.1.spells p.1)) =
            bindings.mapIdx (Engine.bound positional keywords)) ∧
        ∀ (fuel' : Nat) (r' : Ref) (P' : Lists) (u v : World) (positional : List Value)
          (keywords : List (Value × Value)) (scope₁ : Scope Ident) (n : Node) (q₁ q₂ : Progress)
          (callee : Ident) (g : Expr) (args : List Expr) (entries : List (Expr × Expr)),
          Extends w'.functions u.functions → Extends w'.macros u.macros → u.Sealed P' →
          Unbuffered scope₁ → Gives (expr scope₁ n) q₁ (dualCall callee g args entries) q₂ →
          Reaches (Engine.call (fuel' + 3)) r' callee g args entries u m positional keywords v →
          Called fuel' r' w.frames.size (dualCall callee g args entries) u v positional keywords
            bindings ss f := by
  cases builds_of_gives _ hcode with
  | @macroDef _ _ inner _ _ _ _ c contents _ q _ ss es hc hcontents hbody hsignature =>
    obtain rfl : contents = names.map .ofName := hcontents.unique hnames
    have hinner : Unbuffered ((names.map .ofName).foldl bindLocal scope.push) :=
      Scope.Only.foldl (fun c _ _ h => only_bindLocal h (c := c) rfl) hscope.push
    have hprints : Prints .macroOutput false ss := (hbody.prints hinner).1
    have hes := hsignature.apart hscope
    have hshields : Eval.Shields (· = r) P (fun _ c? => c? = none)
        (execAll (Engine.call (fuel + 1)) limit r
          (macroDefinition c (names.map .ofName) es ss ++ publication p'.child c)) :=
      shields_execAll (fun s hs P => shields_macroDefinition (A := (· = r))
        (Engine.shields_call (fuel + 1)) rfl hes hprints hs P) P
    obtain ⟨P₁, hlater, hsealed, -⟩ := hshields w hw
    refine ⟨hlater.keepsBuffers hw, fun w' hrun => ?_⟩
    rw [hrun] at hsealed
    obtain ⟨m, bindings, f, rfl, hdefined⟩ :=
      defines_macro hsignature hscope hnames hprints hw hready hrun
    refine ⟨c, q, ss, inner, m, bindings, f, hc, rfl, hbody, hdefined, ⟨P₁, hsealed⟩,
      fun positional keywords => Engine.mapIdx_bound_known positional keywords bindings, ?_⟩
    intro fuel' r' P' u v positional keywords scope₁ n q₁ q₂ callee g args entries hfunctions
      hmacros hu hscope₁ hcall hreaches
    have ho := (emits_of_gives n hcall).obeys serves_apart hscope₁
    have hbinds := hdefined.function.reads?_entered hdistinct positional keywords v
    have hheld := hdefined.held.mono hmacros hfunctions
    obtain ⟨hparams, hfbody, howned⟩ : f.params.length = bindings.length ∧
        f.body = printed .macroOutput ss ∧ .macroOutput ∈ f.owned := by
      obtain ⟨_, _, rfl⟩ := hdefined.function
      refine ⟨by simp [closureIn], rfl, ?_⟩
      exact List.mem_eraseDups.2 (List.mem_append_right _ List.mem_cons_self)
    refine ⟨hbinds.1, hbinds.2, ?_, ?_⟩
    · exact hreaches.returnsPrinted hu ho hheld hparams.symm hfbody howned hprints
    · obtain ⟨P₂, hcalled, -⟩ :=
        shields_eval (A := (· = r')) (Engine.shields_call (fuel' + 3)) rfl _ ho u hu
      exact hcalled.keepsBuffers hu

/-- A state in which a function with the given identifiers has begun to run, with an empty context
and an empty buffer. -/
def World.beginning (owned : List Ident) : World :=
  { contexts := push {} {}, frames := push {} {}, lists := push {} #[]
    activations := push {} {
      owned
      vars := ofList [(.env, .value .environment), (.context, .context 0),
        (.frame, .frame 0), (.runtime, .runtime), (.output, .value (.list 0))] } }

theorem World.sealed_beginning (owned : List Ident) : (beginning owned).Sealed fun _ => False := by
  have hcontext := sealed_empty.pushContext (c := {})
    ⟨fun _ he => absurd he not_mem_nil, fun _ he => absurd he not_mem_nil⟩
  have hframe : ({ contexts := push {} {}, frames := push {} {} } : World).Sealed
      fun _ => False := hcontext.frames_congr fun r f hf => by
    rcases get?_push_eq_some hf with hf | rfl
    · simp [get?] at hf
    · exact fun _ he => absurd he not_mem_nil
  refine (hframe.pushHidden (A := nobody) #[] fun _ h => absurd h not_mem_nil).1.pushActivation ?_
  constructor
  · intro id cell hfind hid
    have hmem := mem_of_find?_ofList hfind
    simp only [mem_cons, Prod.mk.injEq, not_mem_nil, or_false] at hmem
    rcases hmem with ⟨-, rfl⟩ | ⟨-, rfl⟩ | ⟨-, rfl⟩ | ⟨-, rfl⟩ | ⟨rfl, -⟩
    · trivial
    · trivial
    · trivial
    · trivial
    · cases hid
  · intro id cell hfind hid
    have hmem := mem_of_find?_ofList hfind
    simp only [mem_cons, Prod.mk.injEq, not_mem_nil, or_false] at hmem
    rcases hmem with ⟨rfl, -⟩ | ⟨rfl, -⟩ | ⟨rfl, -⟩ | ⟨rfl, -⟩ | ⟨-, rfl⟩
    · cases hid
    · cases hid
    · cases hid
    · cases hid
    · exact ⟨0, rfl, Nat.zero_lt_one, fun h => h⟩

theorem World.equipped_beginning {owned ss} (hentry : ∀ id ∈ entryParams, id ∈ owned)
    (hss : ∀ id ∈ assignedInBody ss, id ∈ owned) : Equipped (beginning owned) 0 0 0 ss := by
  have hreads {id : Ident} (hid : id ∈ entryParams) :=
    reads?_own (w := beginning owned) (r := 0) rfl (hentry id hid)
  exact {
    nesting := scoped_empty.pushActivation fun o ho => by cases ho
    owns := ⟨_, rfl, hss⟩
    lt := Nat.zero_lt_one
    context := hreads (by decide)
    frame := hreads (by decide)
    runtime := hreads (by decide) }

/-- A macro with a default, called with a keyword argument given twice and one that it does not
know. -/
theorem keywords_end_to_end :
    let pos : Position := {}
    let definition : Node := .macroDef pos (.symbol pos "m")
      [.param pos (.symbol pos "a") none,
        .param pos (.symbol pos "b") (some (.literal pos (.int 2)))]
      (.output pos [.symbol pos "a", .symbol pos "b"])
    let call : Node := .call pos (.symbol pos "m") (some [.literal pos (.int 1),
      .keyword pos (.symbol pos "b") (.literal pos (.int 7)),
      .keyword pos (.symbol pos "b") (.literal pos (.int 8)),
      .keyword pos (.symbol pos "c") (.literal pos (.int 9))])
    let start (code : List Stmt) : World :=
      World.beginning (.temp 1 :: ownedBy (.output :: entryParams) code)
    ∃ code scope p e p' w' v bindings ss f,
      Gives (stmt ⟨true, .output⟩ {} definition) {} (code, scope) p ∧
      Gives (expr scope call) p e p' ∧
      (execAll (Engine.call 9) 9 0 code).outcome (start code) = (.ok none, w') ∧
      bindings = [("a", .none), ("b", .ofConstant (.int 2))] ∧
      Called 9 0 1 e w' v [.ofConstant (.int 1)] [(.ofText "b", .ofConstant (.int 7)),
        (.ofText "b", .ofConstant (.int 8)), (.ofText "c", .ofConstant (.int 9))]
        bindings ss f := by
  intro pos definition call start
  obtain ⟨code, scope, p, p', hcode, hcall, hdone, howned⟩ :
      ∃ code scope p p', Gives (stmt ⟨true, .output⟩ {} definition) {} (code, scope) p ∧
        Gives (expr scope call) p (dualCall (.temp 1) (.name (.localName "m")) [.int 1]
          [(.text "b", .int 7), (.text "b", .int 8), (.text "c", .int 9)]) p' ∧
        ((execAll (Engine.call 9) 9 0 code).outcome (start code)).1.toOption.map Option.isNone =
          some true ∧
        (((execAll (Engine.call 9) 9 0 code).outcome (start code)).2.activations.get? 0).map
          (fun a => a.owned.contains (.temp 1)) = some true :=
    ⟨_, _, _, _, rfl, rfl, by decide +kernel, by decide +kernel⟩
  have hrun := Eval.outcome_eq_ok_none hdone
  generalize ((execAll (Engine.call 9) 9 0 code).outcome (start code)).2 = w' at hrun howned
  have hready : Equipped (start code) 0 0 0 code := by
    refine World.equipped_beginning (fun id hid => ?_) fun id hid => ?_
    · exact List.mem_cons_of_mem _ (List.mem_eraseDups.2 (List.mem_append_left _
        (List.mem_cons_of_mem _ hid)))
    · exact List.mem_cons_of_mem _ (List.mem_eraseDups.2 (List.mem_append_right _ hid))
  have hnames : NamesParams [.param pos (.symbol pos "a") none,
      .param pos (.symbol pos "b") (some (.literal pos (.int 2)))] (["a", "b"].map .ofName) :=
    .cons rfl rfl (.cons rfl rfl .nil)
  obtain ⟨-, hdefined⟩ := macro_calls_end_to_end 8 9 hcode Scope.Only.empty hnames (by decide)
    (World.sealed_beginning _) hready
  obtain ⟨c, q, ss, inner, m, bindings, f, hc, hbindings, -, hdefined, ⟨P', hsealed⟩, -, hcalls⟩ :=
    hdefined w' hrun
  cases hc
  -- The call reaches the macro through the variable of its name.
  obtain ⟨a, ha, hcallee⟩ := Option.map_eq_some_iff.1 howned
  have hreaches : ∃ v, Reaches (Engine.call 12) 0 (.temp 1) (.name (.localName "m")) [.int 1]
      [(.text "b", .int 7), (.text "b", .int 8), (.text "c", .int 9)] w' m [.ofConstant (.int 1)]
      [(.ofText "b", .ofConstant (.int 7)), (.ofText "b", .ofConstant (.int 8)),
        (.ofText "c", .ofConstant (.int 9))] v := by
    refine ⟨_, ?_, ⟨a, ha, List.contains_iff_mem.1 hcallee⟩, w', _,
      outcome_read_of_reads? hdefined.named, rfl, rfl⟩
    exact (hdefined.others .runtime (fun _ => Ident.noConfusion) Ident.noConfusion
      Ident.noConfusion).trans hready.runtime
  obtain ⟨v, hreaches⟩ := hreaches
  have hprints : Prints .output false code ∧ Unbuffered scope :=
    (builds_of_gives _ hcode).prints Scope.Only.empty
  refine ⟨code, scope, p, _, p', w', v, bindings, ss, f, hcode, hcall, hrun, ?_,
    hcalls 9 0 P' w' v _ _ scope call p p' _ _ _ _ (.refl _) (.refl _) hsealed hprints.2 hcall
      hreaches⟩
  -- The defaults are what evaluating them in order gives.
  obtain ⟨before, after, -, hdefaults⟩ := hdefined.defaults
  generalize hvalues : bindings.map (·.2) = values at hdefaults
  obtain _ | ⟨_, hdefaults⟩ := hdefaults
  obtain _ | _ | ⟨_, hemits, heval, hdefaults⟩ := hdefaults
  cases hdefaults
  cases hemits
  cases heval
  obtain _ | ⟨⟨x, d⟩, _ | ⟨⟨y, e⟩, _ | ⟨z, rest⟩⟩⟩ := bindings <;> cases hbindings
  cases hvalues
  rfl

end Stencil
