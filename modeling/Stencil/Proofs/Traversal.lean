import Stencil.Proofs.Rendering

/-!
# What every part of the engine keeps

The engine reaches scripts only through calls. Whatever relation of two states is kept by the few
steps that scripts could notice (a new context, a change of a context, a new function, a compiled
module that is loaded, the run of a script function) is therefore kept by everything the engine
does. `Closed` and `Kept` list what a relation must stand, `CallsAlike` says that two ways of
calling keep it, and `Kept.callsAlike_call` concludes that the engine keeps it with any fuel.

A relation may depend on which entry points are entered with which context in which state, and on
which methods of the machinery are called; `entry` and `method` say what is allowed.
-/

namespace Stencil

open Engine Eval List Script

variable {α β : Type}

/-- A module that some template compiles to. -/
def Script.Module.IsCompiled (m : Module) : Prop :=
  ∃ tree name? file? c, ({} : Compiler).compile tree false name? file? = (.ok m, c)

/-- The root of a template, or one of its blocks. -/
def Template.Entry (t : Template) (e : Value) : Prop :=
  e = t.root ∨ ∃ b, t.blocks.find? b = some e

/-- The state with a new context for renders of a template. -/
def World.pushContext (w : World) (t : Template) (vars : Table String Value) : World :=
  { w with contexts := w.contexts.push (.ofBlocks vars t.blocks.entries) }

theorem World.context_push (w : World) (c : Context) (d : Ref) :
    { w with contexts := w.contexts.push c }.context d =
      if d = w.contexts.size then c else w.context d := by
  unfold Heap.context
  rcases Nat.lt_trichotomy d w.contexts.size with hlt | rfl | hgt
  · rw [w.contexts.get?_push_of_lt _ hlt, if_neg (Nat.ne_of_lt hlt)]
  · rw [w.contexts.get?_push_self, if_pos rfl, Option.getD_some]
  · rw [if_neg (Nat.ne_of_gt hgt), Store.get?_eq_none (Nat.le_of_lt hgt),
      Store.get?_eq_none (by rw [Store.size_push]; exact hgt)]

/-- The state with another context in the place of one. -/
abbrev World.setContext (w : World) (r : Ref) (c : Context) : World :=
  { w with contexts := w.contexts.set r c }

theorem World.context_setContext (w : World) (r : Ref) (c : Context) (d : Ref) :
    (w.setContext r c).context d = if r = d ∧ r < w.contexts.size then c else w.context d := by
  unfold Heap.context
  by_cases hd : r = d
  · subst hd
    by_cases hr : r < w.contexts.size
    · rw [w.contexts.get?_set_self c hr, if_pos ⟨rfl, hr⟩, Option.getD_some]
    · rw [if_neg fun h => hr h.2, Store.get?_eq_none (Nat.le_of_not_lt hr),
        Store.get?_eq_none (by rw [Store.size_set]; exact Nat.le_of_not_lt hr)]
  · rw [w.contexts.get?_set_of_ne c hd, if_neg fun h => hd h.1]

theorem World.context_set {w : World} {r : Ref} (hr : r < w.contexts.size) (c : Context) :
    (w.setContext r c).context r = c :=
  (w.context_setContext r c r).trans (if_pos ⟨rfl, hr⟩)

/-- A relation of states that stands what the engine does apart from loading templates and running
script functions. -/
structure Closed (R : World → World → Prop) (entry : World → Ref → Value → Prop)
    (method : Cell → Attr → Prop) : Prop where
  twin {w w'} : R w w' → ∃ acts, w' = { w with activations := acts }
  rest {w w'} : R w w' → ∀ (o : Objects) (macros : Store Macro) (state? : Option RenderState),
    R { w with toObjects := o, macros, state? } { w' with toObjects := o, macros, state? }
  pushFrame {w w'} : R w w' → ∀ f,
    R { w with frames := w.frames.push f } { w' with frames := w.frames.push f }
  setFrame {w w'} : R w w' → ∀ r f, method (.frame r) .set → f.parent = (w.frame r).parent →
    R { w with frames := w.frames.set r f } { w' with frames := w.frames.set r f }
  pushContext {w w'} : R w w' → ∀ r vars,
    R (w.pushContext (w.template r) vars) (w'.pushContext (w.template r) vars)
  setContext {w w'} : R w w' → ∀ r c, c.blocks = (w.context r).blocks →
    R { w with contexts := w.contexts.set r c } { w' with contexts := w.contexts.set r c }
  addBlock {w w'} : R w w' → ∀ r name block, method (.context r) .addBlock →
    R { w with contexts := w.contexts.set r ((w.context r).addBlock name block) }
      { w' with contexts := w.contexts.set r ((w.context r).addBlock name block) }
  pushSuper {w w'} : R w w' → ∀ env r (name : Constant) next?,
    (∀ b, next? = some b → b ∈ (w.context r).chainOf name) →
    R { w with functions := w.functions.push (.superBlock env r name next?) }
      { w' with functions := w.functions.push (.superBlock env r name next?) }
  entryFresh {w w'} : R w w' → ∀ r vars e, (w.template r).Entry e →
    entry (w.pushContext (w.template r) vars) w.contexts.size e
  entryRest {w c e} : entry w c e → ∀ (o : Objects)
    (macros : Store Macro) (state? : Option RenderState) (frames : Store Frame),
    entry { w with toObjects := o, macros, state?, frames } c e
  entrySuper {w w'} : R w w' → ∀ q env r name next,
    w.functions.get? q = some (.superBlock env r name (some next)) → entry w r next

/-- Related states in which an entry point may be entered with a context. -/
def Admits (R : World → World → Prop) (entry : World → Ref → Value → Prop) (c : Ref) (e : Value)
    (w w' : World) : Prop :=
  R w w' ∧ entry w c e

/-- Two ways of calling that keep a relation of states, as far as entry points and methods are
allowed. -/
structure CallsAlike (R : World → World → Prop) (entry : World → Ref → Value → Prop)
    (method : Cell → Attr → Prop) (call call' : Call) : Prop where
  value (f : Value) (args : List Value) : Alike R (call.value f args) (call'.value f args)
  enter (e env : Value) (c f : Ref) :
    AlikeFrom (Admits R entry c e) R (call.enter e env c f) (call'.enter e env c f)
  method (self : Cell) (field : Attr) (args : List Cell) :
    method self field → Alike R (call.method self field args) (call'.method self field args)

namespace Context

theorem addExport_blocks (c : Context) (name : String) : (c.addExport name).blocks = c.blocks := by
  unfold addExport
  split <;> rfl

theorem mem_addExport (c : Context) {name x} :
    x ∈ (c.addExport name).exported ↔ x ∈ c.exported ∨ x = name := by
  unfold addExport
  split
  next h => exact ⟨.inl, (Or.elim · id fun hx => hx ▸ contains_iff_mem.1 h)⟩
  next => rw [mem_append, mem_singleton]

theorem mem_chainOf_of_nextBlock? {c : Context} {name block next}
    (h : c.nextBlock? name block = some next) : next ∈ c.chainOf name := by
  have hd := mem_of_mem_head? (Option.mem_def.2 h)
  exact (dropWhile_sublist _).subset (mem_of_mem_drop hd)

end Context

/-- Frames are looked up without the activations. -/
theorem World.lookupFrame_activations (w : World) (acts : Store Activation) (r : Ref)
    (name : String) : { w with activations := acts }.lookupFrame r name = w.lookupFrame r name := by
  have h (fuel : Nat) : ∀ r, { w with activations := acts }.lookupFrames name fuel r =
      w.lookupFrames name fuel r := by
    induction fuel with
    | zero => exact fun _ => rfl
    | succ fuel ih =>
      intro r
      simp only [World.lookupFrames, World.frame, ih]
  exact h (r + 1) r

/-- A fault may be handled on both sides. -/
theorem Coupled.recover {pre R} (accepts : Fault → Bool) {x y} {f g : Fault → Eval α}
    (hx : AlikeFrom pre R x y) (hf : ∀ e, Alike R (f e) (g e)) :
    AlikeFrom pre R (recover accepts x f) (recover accepts y g) := by
  intro w w' hw
  rw [outcome_recover, outcome_recover]
  obtain ⟨a, b, u, u', hu, hu', h⟩ | ⟨e, u, u', hu, hu', h⟩ := (hx w w' hw).results_or_halt
  · rw [hu, hu']
    exact .ok h
  · rw [hu, hu']
    cases e with
    | outOfFuel => exact .error h
    | fault e => exact (hf e).ite (Alike.fail e) u u' h

theorem Alike.ofExcept {R} (e : Except Fault α) : Alike R (ofExcept e : Eval α) (ofExcept e) := by
  cases e with
  | ok a => exact Alike.pure a
  | error f => exact Alike.fail f

namespace Closed

variable {R : World → World → Prop} {entry : World → Ref → Value → Prop}
  {method : Cell → Attr → Prop} (hR : Closed R entry method)

include hR

/-! ## Single steps -/

theorem lift (x : Operation α) : Alike R (liftM x : Eval α) (liftM x) := by
  intro w w' hw
  have hrest := hR.rest hw (x.perform w.toSurroundings w.toObjects).2 w.macros w.state?
  obtain ⟨acts, rfl⟩ := hR.twin hw
  rw [outcome_lift, outcome_lift]
  revert hrest
  rcases (x.perform w.toSurroundings w.toObjects).1 with f | a
  · exact fun h => .error h
  · exact fun h => .ok ⟨rfl, h⟩

theorem get_bind_of {f g : World → Eval α}
    (hf : ∀ w w', R w w' → Agree (fun a b w w' => b = a ∧ R w w') R ((f w).outcome w)
      ((g w).outcome w'))
    (hg : ∀ w acts, g { w with activations := acts } = g w) :
    Alike R (get >>= f) (get >>= g) := by
  intro w w' hw
  obtain ⟨acts, rfl⟩ := hR.twin hw
  rw [outcome_get_bind, outcome_get_bind, hg]
  exact hf w _ hw

theorem get_bind {f g : World → Eval α} (hf : ∀ w, Alike R (f w) (g w))
    (hg : ∀ w acts, g { w with activations := acts } = g w) :
    Alike R (get >>= f) (get >>= g) :=
  hR.get_bind_of (fun w w' hw => hf w w w' hw) hg

theorem modifyGet {f} (hf : ∀ w acts, R w { w with activations := acts } →
      (f { w with activations := acts }).1 = (f w).1 ∧
        R (f w).2 (f { w with activations := acts }).2) :
    Alike R (modifyGet f : Eval α) (MonadStateOf.modifyGet f) := by
  intro w w' hw
  obtain ⟨acts, rfl⟩ := hR.twin hw
  exact .ok (hf w acts hw)

theorem newFrame (f : Frame) : Alike R (newFrame f) (newFrame f) :=
  hR.modifyGet fun _ _ hw => ⟨rfl, hR.pushFrame hw f⟩

theorem newMacro (m : Macro) : Alike R (newMacro m) (newMacro m) :=
  hR.modifyGet fun w _ hw =>
    ⟨rfl, hR.rest hw w.toObjects (w.macros.push m) w.state?⟩

theorem bindVariable (r : Ref) (name : String) (v : Value) (h : method (.frame r) .set) :
    Alike R (bindVariable r name v) (bindVariable r name v) :=
  hR.modifyGet fun _ _ hw => ⟨rfl, hR.setFrame hw r _ h rfl⟩

theorem modifyContext (r : Ref) (f : Context → Context) (hf : ∀ c, (f c).blocks = c.blocks) :
    Alike R (modifyContext r f) (modifyContext r f) := by
  intro w w' hw
  have hset := hR.setContext hw r (f (w.context r)) (hf _)
  obtain ⟨acts, rfl⟩ := hR.twin hw
  exact .ok ⟨rfl, hset⟩

theorem setVariable (r : Ref) (name : String) (v : Value) :
    Alike R (setVariable r name v) (setVariable r name v) :=
  hR.modifyContext r (fun c => { c with vars := c.vars.insert name v }) fun _ => rfl

theorem modifyContext_addBlock (r : Ref) (name : String) (block : Value)
    (h : method (.context r) .addBlock) :
    Alike R (Eval.modifyContext r (·.addBlock name block))
      (Eval.modifyContext r (·.addBlock name block)) := by
  intro w w' hw
  have hset := hR.addBlock hw r name block h
  obtain ⟨acts, rfl⟩ := hR.twin hw
  exact .ok ⟨rfl, hset⟩

theorem getSuper (env : Value) (r : Ref) (name : Constant) (block : Value) :
    Alike R (getSuper env r name block) (getSuper env r name block) := by
  intro w w' hw
  have hpush := hR.pushSuper hw env r name ((w.context r).nextBlock? name block)
    fun _ => Context.mem_chainOf_of_nextBlock?
  obtain ⟨acts, rfl⟩ := hR.twin hw
  exact .ok ⟨rfl, hpush⟩

/-- Where an entry point may be entered, it may also be entered in another render state. -/
theorem withState {c e} (state? : Option RenderState) {x y : Eval α}
    (hx : AlikeFrom (Admits R entry c e) R x y) :
    AlikeFrom (Admits R entry c e) R (withState state? x) (withState state? y) := by
  rintro w w' ⟨hw, he⟩
  have hstate := hR.rest hw w.toObjects w.macros state?
  have hentry := hR.entryRest he w.toObjects w.macros state? w.frames
  obtain ⟨acts, rfl⟩ := hR.twin hw
  have back {u u' : World} (h : R u u') :
      R { u with state? := w.state? } { u' with state? := w.state? } := by
    have hrest := hR.rest h u.toObjects u.macros w.state?
    obtain ⟨_, rfl⟩ := hR.twin h
    exact hrest
  show Agree _ _ ((x.outcome { w with state? }).1, { (x.outcome { w with state? }).2 with
      state? := w.state? }) ((y.outcome { w with state?, activations := acts }).1,
      { (y.outcome { w with state?, activations := acts }).2 with state? := w.state? })
  obtain ⟨a, b, u, u', hu, hu', h, hR'⟩ | ⟨e, u, u', hu, hu', hR'⟩ :=
    (hx _ _ ⟨hstate, hentry⟩).results_or_halt
  · rw [hu, hu']
    exact .ok ⟨h, back hR'⟩
  · rw [hu, hu']
    exact .error (back hR')

/-! ## Frames and contexts -/

theorem setInFrame (r : Ref) (name : String) (v : Value) (h : method (.frame r) .set) :
    Alike R (setInFrame r name v) (setInFrame r name v) := by
  unfold Eval.setInFrame
  split
  · exact Alike.pure ()
  · exact hR.bindVariable r _ v h
  · refine hR.get_bind (fun w => ?_) fun _ _ => rfl
    refine (hR.lift _).bind fun (inner, isNew) => ?_
    cases isNew with
    | true => exact (hR.bindVariable r _ _ h).bind fun _ => hR.lift _
    | false => exact hR.lift _

theorem popFrame (r : Ref) : Alike R (popFrame r) (popFrame r) :=
  hR.get_bind (fun _ => Alike.pure _) fun _ _ => rfl

theorem resolve (c f : Ref) (name : String) : Alike R (resolve c f name) (resolve c f name) := by
  refine hR.get_bind (fun w => ?_) fun w acts => ?_
  · split
    · split <;> exact Alike.pure _
    · exact Alike.pure _
  · rw [World.lookupFrame_activations]

theorem callContext (r : Ref) (field : Attr) (args : List Value) (h : method (.context r) field) :
    Alike R (callContext r field args) (callContext r field args) := by
  unfold Engine.callContext
  split
  · exact (hR.setVariable r _ _).bind fun _ => Alike.pure _
  · exact (hR.modifyContext r _ fun c => c.addExport_blocks _).bind fun _ => Alike.pure _
  · exact (hR.modifyContext_addBlock r _ _ h).bind fun _ => Alike.pure _
  · exact hR.lift _
  · exact hR.get_bind (fun w => hR.lift _) fun _ _ => rfl
  · exact Alike.fail _

/-! ## Loading and rendering -/

theorem loadUnit (hload : ∀ m : Module, m.IsCompiled → Alike R (loadModule m) (loadModule m))
    (tree : Node) (name? file? : Option String) :
    Alike R (loadUnit tree name? file?) (loadUnit tree name? file?) := by
  unfold Eval.loadUnit
  rcases hcompile : ({} : Compiler).compile tree false name? file? with ⟨e | m, c⟩
  · exact Alike.fail e
  simp only [Eval.ofExcept, pure_bind]
  refine (hload m ⟨tree, name?, file?, c, hcompile⟩).bind fun functions => ?_
  refine (Alike.ofExcept _).bind fun unit => ?_
  exact (hR.lift _).bind fun _ => Alike.pure unit

/-- Loading a template keeps what loading modules and making templates keep. -/
theorem getTemplate (hload : ∀ m : Module, m.IsCompiled → Alike R (loadModule m) (loadModule m))
    (htemplate : ∀ t, Alike R (newTemplate t) (newTemplate t))
    (name : Value) (eager : Bool) :
    Alike R (getTemplate name eager) (getTemplate name eager) := by
  refine hR.get_bind (fun w => ?_) fun _ _ => rfl
  split
  · exact (hR.lift _).bind fun _ => Alike.fail _
  · refine (hR.lift _).bind fun (tree, file?) => (hR.lift _).bind fun shown => ?_
    refine (hR.lift _).bind fun _ => ?_
    exact (hR.loadUnit hload tree _ _).bind fun unit => htemplate _

variable {call call' : Call} (hc : CallsAlike R entry method call call')

include hc

/-- Running an entry point where it may be entered. -/
theorem runEntry (t : Template) (e : Value) (c f : Ref) :
    AlikeFrom (Admits R entry c e) R (runEntry call t e c f) (runEntry call' t e c f) := by
  have hreport : AlikeFrom (Admits R entry c e) R
      (reporting t.name? (enter call e .environment c f))
      (reporting t.name? (enter call' e .environment c f)) := by
    refine Coupled.recover _ (hc.enter e .environment c f) fun f => ?_
    refine hR.get_bind (fun w => ?_) fun _ _ => rfl
    exact (Alike.ofExcept _).bind fun _ => Alike.fail _
  intro w w' hw
  obtain ⟨acts, rfl⟩ := hR.twin hw.1
  unfold Engine.runEntry Eval.inRender
  rw [outcome_get_bind, outcome_get_bind]
  dsimp only
  split
  · exact hR.withState _ hreport _ _ hw
  · split
    · exact .error hw.1
    · exact hR.withState _ hreport _ _ hw

/-- Running an entry point of a template in a new context and a new frame. -/
theorem runInContext (r : Ref) (t : Template) (vars : List (String × Value)) (e : Value)
    (frame : Frame) {g : Ref → Value → Eval Value} (hg : ∀ c v, Alike R (g c v) (g c v)) :
    AlikeFrom (fun w w' => R w w' ∧ w.template r = t ∧ t.Entry e) R (do
        Eval.checkAlive t.name?
        let context ← Engine.renderContext t vars
        let frame ← Eval.newFrame frame
        g context (← Engine.runEntry call t e context frame))
      (do
        Eval.checkAlive t.name?
        let context ← Engine.renderContext t vars
        let frame ← Eval.newFrame frame
        g context (← Engine.runEntry call' t e context frame)) := by
  rintro w w' ⟨hw, rfl, he⟩
  have hcontext := hR.pushContext hw r (w.env.globals.insertAll vars)
  have hentry := hR.entryFresh hw r (w.env.globals.insertAll vars) e he
  obtain ⟨acts, rfl⟩ := hR.twin hw
  cases halive : w.env.alive with
  | false =>
    rw [Eval.outcome_bind_of_error (Eval.outcome_checkAlive_of_gone halive _),
      Eval.outcome_bind_of_error
        (Eval.outcome_checkAlive_of_gone (w := { w with activations := acts }) halive _)]
    exact .error hw
  | true =>
    rw [Eval.outcome_bind_of_ok (Eval.outcome_checkAlive halive _), Eval.outcome_bind_of_ok
        (Eval.outcome_checkAlive (w := { w with activations := acts }) halive _)]
    have hframe := hR.pushFrame hcontext frame
    have hadmits := hR.entryRest hentry w.toObjects w.macros w.state? (w.frames.push frame)
    exact Coupled.bind_alike (hR.runEntry hc (w.template r) e w.contexts.size w.frames.size)
      (hg w.contexts.size) _ _ ⟨hframe, hadmits⟩

theorem render (r : Ref) (vars : List (String × Value)) (frame? : Option Ref) :
    Alike R (render call r vars frame?) (render call' r vars frame?) := by
  refine hR.get_bind_of (fun w w' hw => ?_) fun _ _ => rfl
  have hrun := hR.runInContext hc r (w.template r) vars (w.template r).root { parent := frame? }
    (fun _ => Alike.pure) w w' ⟨hw, rfl, .inl rfl⟩
  simpa only [bind_pure] using hrun

theorem getModule (r : Ref) : Alike R (getModule call r) (getModule call' r) := by
  refine hR.get_bind_of (fun w w' hw => ?_) fun _ _ => rfl
  exact hR.runInContext hc r (w.template r) [] (w.template r).root {}
    (fun c _ => hR.lift (exportsDict c)) w w'
    ⟨hw, rfl, .inl rfl⟩

theorem renderBlock (r : Ref) (block : String) (vars : List (String × Value)) :
    Alike R (renderBlock call r block vars) (renderBlock call' r block vars) := by
  refine hR.get_bind_of (fun w w' hw => ?_) fun _ _ => rfl
  dsimp only
  cases hblock : (w.template r).blocks.find? block with
  | none => exact .error hw
  | some e =>
    have hrun := hR.runInContext hc r (w.template r) vars e {}
      (fun _ => Alike.pure) w w' ⟨hw, rfl, .inr ⟨block, hblock⟩⟩
    simpa only [bind_pure] using hrun

/-! ## Calls -/

theorem callMacro (r : Ref) (args : List Value) :
    Alike R (callMacro call r args) (callMacro call' r args) := by
  refine (hR.lift _).bind fun _ => hR.get_bind (fun w => ?_) fun _ _ => rfl
  refine hR.get_bind (fun u => ?_) fun _ _ => rfl
  have body (kwargs : Value) := (hR.lift (bindParams (args.headD (.ofItems [])) kwargs 0
    (w.macroAt r).params)).bind fun vs => hc.value (w.macroAt r).function vs
  exact Alike.ite ((Alike.pure _).bind body) ((hR.lift _).bind body)

theorem callSuper (env : Value) (c : Ref) (name : Constant) (next? : Option Value) (given : Nat) :
    AlikeFrom (fun w w' => R w w' ∧ ∀ next, next? = some next → entry w c next) R
      (callSuper call env c name next? given)
      (callSuper call' env c name next? given) := by
  cases next? with
  | none => exact fun w w' hw => (hR.lift _).bind (fun _ => Alike.fail _) w w' hw.1
  | some next =>
    unfold Engine.callSuper Eval.checkArity
    dsimp only
    split
    · exact Coupled.fail fun _ _ hw => hw.1
    · rintro w w' ⟨hw, he⟩
      have hframe := hR.pushFrame hw {}
      have hentry := hR.entryRest (he next rfl) w.toObjects w.macros w.state? (w.frames.push {})
      obtain ⟨acts, rfl⟩ := hR.twin hw
      exact hc.enter next env c w.frames.size _ _ ⟨hframe, hentry⟩

theorem enterProbe (name tag : String) (env : Value) (c : Ref) :
    Alike R (enterProbe call name tag env c) (enterProbe call' name tag env c) := by
  refine Alike.ite ?_ (hR.lift _)
  refine (hR.getSuper _ _ _ _).bind fun next => (hc.value next []).bind fun inner => ?_
  exact (hR.lift _).bind fun _ => hR.lift _

omit hc in
theorem callHelper (field : Attr) (args : List Value) :
    Alike R (callHelper field args) (callHelper field args) := by
  refine (hR.lift _).bind fun _ => ?_
  split
  · exact hR.lift _
  · exact hR.lift _
  · exact (hR.lift _).bind fun b => Alike.pure _
  · exact hR.lift _
  · exact (hR.lift _).bind fun name => (hR.lift _).bind fun shown => Alike.fail _
  · exact hR.get_bind (fun w => (hR.lift _).bind fun _ => hR.newMacro _) fun _ _ => rfl
  · exact hR.lift _
  · exact hR.lift _
  · exact Alike.fail _

theorem joinElements (v separator : Value) : Alike R (BuiltinFilter.joinElements call v separator)
      (BuiltinFilter.joinElements call' v separator) := by
  unfold BuiltinFilter.joinElements
  split
  · exact Alike.pure _
  · refine (hR.lift _).bind fun joiner? => ?_
    cases joiner? with
    | some joiner => exact (hR.lift _).bind fun texts => hc.value joiner [texts]
    | none =>
      dsimp only
      split <;> exact Alike.fail _

theorem filter (b : BuiltinFilter) (args : List Value) :
    Alike R (b.apply call args) (b.apply call' args) := by
  refine (hR.lift _).bind fun _ => ?_
  cases b with
  | join => exact hR.joinElements hc _ _
  | replace => exact (hR.lift _).bind fun text => hR.lift _
  | int =>
    refine (Alike.ofExcept _).bind fun n? => ?_
    cases n? with
    | none => exact Alike.pure _
    | some n =>
      dsimp only
      split
      · exact Alike.pure _
      · exact hR.lift _
  | _ => exact hR.lift _

theorem callTemplate (r : Ref) (field : Attr) (args : List Value) :
    Alike R (callTemplate call r field args) (callTemplate call' r field args) := by
  unfold Engine.callTemplate
  split
  · exact hR.render hc r [] none
  · exact hR.get_bind (fun w => hR.render hc r _ none) fun _ _ => rfl
  · exact hR.getModule hc r
  · exact Alike.fail _

/-- A method of the machinery, as far as it is allowed. -/
theorem callMethod (hload : ∀ name eager,
      Alike R (Eval.getTemplate name eager) (Eval.getTemplate name eager))
    (self : Cell) (field : Attr) (args : List Cell) (h : method self field) :
    Alike R (callMethod call self field args) (callMethod call' self field args) := by
  unfold Engine.callMethod
  split
  · exact (hR.resolve _ _ _).bind fun v => Alike.pure _
  · exact (hR.lift _).bind fun vs => (hR.callHelper _ _).bind fun v => Alike.pure _
  · exact (hR.getSuper _ _ _ _).bind fun v => Alike.pure _
  · exact (hR.lift _).bind fun vs => (hR.callContext _ _ _ h).bind fun v => Alike.pure _
  · exact (hR.newFrame _).bind fun f => Alike.pure _
  · exact (hR.popFrame _).bind fun f? => Alike.pure _
  · exact (hR.setInFrame _ _ _ h).bind fun _ => Alike.pure _
  · exact (hR.lift _).bind fun vs => (hload _ _).bind fun r => Alike.pure _
  · exact (hR.lift _).bind fun f => Alike.pure _
  · exact hR.get_bind (fun w => (hR.render hc _ _ _).bind fun v => Alike.pure _) fun _ _ => rfl
  · exact (hR.lift _).bind fun vs => (hR.callTemplate hc _ _ _).bind fun v => Alike.pure _
  · exact (hR.lift _).bind fun v => Alike.pure _
  · exact (hR.lift _).bind fun v => Alike.pure _
  · exact Alike.fail _

end Closed

/-- The arguments of a call of a function: values, or what an entry point is entered with where that
is allowed. -/
def Given (entry : World → Ref → Value → Prop) (w : World) (q : Ref) (args : List Cell) : Prop :=
  (∃ vs : List Value, args = vs.map .value) ∨
    ∃ env r f, args = [.value env, .context r, .frame f, .runtime] ∧ entry w r (.function q)

/-- A relation that stands everything the engine does: loading templates and running the script
functions of the state, called with values or entered with a context, included. The calls that these
functions make may be taken to be `good`. -/
structure Kept (R : World → World → Prop) (entry : World → Ref → Value → Prop)
    (method : Cell → Attr → Prop) (good : Call → Call → Prop) : Prop
    extends Closed R entry method where
  load (name : Value) (eager : Bool) : Alike R (getTemplate name eager) (getTemplate name eager)
  closure {call call'} (hc : CallsAlike R entry method call call') (hg : good call call')
    (limit : Nat) (q : Ref) (c : Closure) (args : List Cell) : AlikeFrom
      (fun w w' => R w w' ∧ w.functions.get? q = some (.closure c) ∧ Given entry w q args) R
      (callClosure call limit c args) (callClosure call' limit c args)

namespace Kept

variable {R : World → World → Prop} {entry : World → Ref → Value → Prop}
  {method : Cell → Attr → Prop} {good : Call → Call → Prop} (hR : Kept R entry method good)
  {call call' : Call} (hc : CallsAlike R entry method call call') (hg : good call call')

include hR hc hg

theorem callFunction (limit : Nat) (q : Ref) (args : List Cell) :
    AlikeFrom (fun w w' => R w w' ∧ Given entry w q args) R
      (callFunction call limit q args) (callFunction call' limit q args) := by
  rintro w w' ⟨hw, ha⟩
  obtain ⟨acts, rfl⟩ := hR.twin hw
  unfold Engine.callFunction
  rw [outcome_get_bind, outcome_get_bind]
  cases hq : w.functions.get? q with
  | none => exact Alike.fail _ _ _ hw
  | some f =>
    cases f with
    | closure c => exact hR.closure hc hg limit q c args _ _ ⟨hw, hq, ha⟩
    | superBlock env r name next? =>
      refine hR.toClosed.callSuper hc env r name next? _ _ _ ⟨hw, ?_⟩
      rintro next rfl
      exact hR.entrySuper hw q env r name next hq

/-- Calls of values keep what the calls they make keep. -/
theorem apply (limit : Nat) (f : Value) (args : List Value) :
    Alike R (apply call limit f args) (apply call' limit f args) := by
  unfold Engine.apply
  split
  · exact fun w w' hw => hR.callFunction hc hg limit _ _ w w' ⟨hw, .inl ⟨args, rfl⟩⟩
  · exact hR.toClosed.callMacro hc _ _
  · exact hR.lift _
  · exact hR.toClosed.filter hc _ _
  · exact hR.lift _
  · exact hR.lift _
  · exact hR.toClosed.callTemplate hc _ _ _
  · exact Alike.fail _

theorem applyEntry (limit : Nat) (e env : Value) (c f : Ref) :
    AlikeFrom (Admits R entry c e) R (applyEntry call limit e env c f)
      (applyEntry call' limit e env c f) := by
  rintro w w' ⟨hw, he⟩
  unfold Engine.applyEntry
  split
  · exact hR.callFunction hc hg limit _ _ w w' ⟨hw, .inr ⟨env, c, f, rfl, he⟩⟩
  · exact hR.toClosed.enterProbe hc _ _ _ _ w w' hw
  · exact Alike.fail _ w w' hw

omit hc hg in
theorem callsAlike_call (hgood : ∀ fuel, good (Engine.call fuel) (Engine.call fuel)) (fuel : Nat) :
    CallsAlike R entry method (Engine.call fuel) (Engine.call fuel) := by
  induction fuel with
  | zero =>
    exact ⟨fun _ _ => Alike.throw _, fun _ _ _ _ => Coupled.throw fun _ _ h => h.1,
      fun _ _ _ _ => Alike.throw _⟩
  | succ fuel ih =>
    exact ⟨hR.apply ih (hgood fuel) fuel, hR.applyEntry ih (hgood fuel) fuel,
      hR.toClosed.callMethod ih hR.load⟩

end Kept

end Stencil
