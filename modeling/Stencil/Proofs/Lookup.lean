import Stencil.Proofs.Frames
import Stencil.Proofs.Interception
import Stencil.Proofs.Nesting
import Stencil.Proofs.Supply

/-!
# Looking up blocks

Generated code asks its context for the first definition of a block, and for the definition behind
its own one. In a supplied state neither lookup comes away empty: `World.Supplied.kept` carries the
invariant through everything the engine runs, and with it an engine that raises an alarm on such a
lookup is not noticed.
-/

namespace Stencil

open Script Compile Engine Eval List Table World

variable {b : String} {id : Ident} {cell : Cell}

variable {w u : World} {r c : Ref}

/-! ## What stays -/

/-- A later state has the templates and, in each chain, the definitions that a state has. -/
structure World.RetainedBy (w u : World) : Prop where
  templates : Extends w.templates u.templates
  chain (c : Ref) (b : String) : (w.context c).chain b ⊆ (u.context c).chain b

namespace World.RetainedBy

variable {base : World}

theorem refl (w : World) : w.RetainedBy w :=
  ⟨Extends.refl _, fun _ _ => Subset.refl _⟩

/-- Chains are kept where contexts are changed in their place. -/
theorem chain_set {context} (h : ∀ b, (w.context r).chain b ⊆ context.chain b) (c : Ref)
    (b : String) : (w.context c).chain b ⊆ ((w.setContext r context).context c).chain b := by
  rw [w.context_setContext]
  split
  · next hr => exact hr.1 ▸ h b
  · exact Subset.refl _

theorem chain_push (context : Context) (c : Ref) (b : String) : (w.context c).chain b ⊆
    (({ w with contexts := w.contexts.push context } : World).context c).chain b := by
  intro v hv
  have hlt := Supplied.lt_of_mem_chainOf (.str b) hv
  rwa [w.context_push, if_neg (Nat.ne_of_lt hlt)]

theorem chain_addBlock (context : Context) (name b : String) (v : Value) :
    context.chain b ⊆ (context.addBlock name v).chain b := by
  by_cases hb : b = name
  · subst hb
    rw [Context.chain_addBlock_self]
    exact subset_append_left _ _
  · rw [Context.chain_addBlock_of_ne _ hb]
    exact Subset.refl _

theorem closed : Closed (Always base.RetainedBy) anyEntry anyMethod where
  twin h := ⟨_, h.1⟩
  rest h _ _ _ := ⟨by rw [h.1], h.2.templates, h.2.chain⟩
  pushFrame h _ := ⟨by rw [h.1], h.2.templates, h.2.chain⟩
  setFrame h _ _ _ _ := ⟨by rw [h.1], h.2.templates, h.2.chain⟩
  pushContext h _ _ := ⟨by rw [h.1], h.2.templates, fun c b =>
    Subset.trans (h.2.chain c b) (chain_push _ c b)⟩
  entryFresh _ _ _ _ _ := trivial
  entryRest _ _ _ _ _ := trivial
  setContext {w _} h r context hblocks := ⟨by rw [h.1], h.2.templates, fun c b =>
    Subset.trans (h.2.chain c b) (chain_set (fun b => by simp [Context.chain, hblocks]) c b)⟩
  addBlock h _ name v _ := ⟨by rw [h.1], h.2.templates, fun c b =>
    Subset.trans (h.2.chain c b) (chain_set (fun b => chain_addBlock _ name b v) c b)⟩
  pushSuper h _ _ _ _ _ := ⟨by rw [h.1], h.2.templates, h.2.chain⟩
  entrySuper _ _ _ _ _ _ _ := trivial

theorem kept : Kept (Always base.RetainedBy) anyEntry anyMethod fun _ _ => True :=
  closed.kept (fun _ _ h => ⟨h.templates, h.chain⟩) fun _ t h => ⟨h.templates.push t, h.chain⟩

end World.RetainedBy

/-- A later state has what a state has, activations included. -/
def World.Precedes (w u : World) : Prop :=
  Extends w.activations u.activations ∧ w.RetainedBy u

theorem Engine.evolves_call (fuel : Nat) : (call fuel).Evolves Precedes := by
  have hsteady := (steady_call fuel).evolves
  have hretained (base : World) : CallsAlike (Always base.RetainedBy) anyEntry anyMethod
      (call fuel) (call fuel) :=
    RetainedBy.kept.callsAlike_call (fun _ => trivial) fuel
  exact
    { value := fun f args w => ⟨hsteady.value f args w,
        Always.alike_iff.1 ((hretained w).value f args) w (.refl w)⟩
      enter := fun e env c f w => ⟨hsteady.enter e env c f w,
        Always.alike_iff.1 ((hretained w).enter_any e env c f) w (.refl w)⟩
      method := fun self field args w => ⟨hsteady.method self field args w,
        Always.alike_iff.1 ((hretained w).method self field args trivial) w (.refl w)⟩ }

/-- A template that was found by its name is one of the state. -/
theorem Eval.lt_of_getTemplate {name eager t}
    (h : (getTemplate name eager).outcome w = (.ok t, u)) : t < u.templates.size := by
  unfold getTemplate at h
  rw [outcome_get_bind] at h
  split at h
  · obtain ⟨_, _, -, h⟩ := outcome_bind_eq_ok h
    cases h
  · obtain ⟨_, _, -, h⟩ := outcome_bind_eq_ok h
    obtain ⟨_, _, -, h⟩ := outcome_bind_eq_ok h
    obtain ⟨_, _, -, h⟩ := outcome_bind_eq_ok h
    obtain ⟨_, _, -, h⟩ := outcome_bind_eq_ok h
    cases h
    simp

/-! ## Lookups -/

/-- A lookup of blocks that comes away empty: no definition of a block is found, or the definition
that the next one is asked for. -/
def World.lacks (w : World) : Cell → Attr → List Cell → Bool
  | .context c, .getBlock, [.value name] =>
    ((w.context c).chainOf (name.constant?.getD .null)).isEmpty
  | .context c, .getSuper, [_, .value name, .value block, _] =>
    !((w.context c).chainOf (name.constant?.getD .null)).any (·.identical block)
  | _, _, _ => false

/-- Do something else instead of a lookup of blocks that would come away empty. -/
def lookupAlarm (alarm : Eval Cell) : Interception where
  method self field args x := do if (← get).lacks self field args then alarm else x

/-- What a method of a context does. No calls are made. -/
def Engine.contextMethod (c : Ref) : Attr → List Cell → Eval Cell
  | .getSuper, [.value env, .value name, .value block, _] =>
    return .value (← getSuper env c (name.constant?.getD .null) block)
  | field, args => do return .value (← callContext c field (← valuesIn args))

theorem Engine.callMethod_context (call : Call) (c : Ref) (field : Attr) (args : List Cell) :
    callMethod call (.context c) field args = contextMethod c field args := by
  cases field with
  | getSuper =>
    unfold contextMethod
    split
    · rfl
    · rename_i hargs
      unfold callMethod
      split <;> first | cases ‹Cell.context c = _› | skip
      · exact (hargs _ _ _ _ rfl rfl).elim
      · rfl
      · exact (‹∀ r, Cell.context c = .context r → False› c rfl).elim
  | _ => rfl

theorem Eval.outcome_getBlock (c : Ref) (name : Constant) (w : World) :
    (liftM (getBlock c name) : Eval Value).outcome w = (match (w.context c).chainOf name with
        | v :: _ => .ok v
        | [] => .error (.fault (.report (.unknownBlock name.text))), w) := by
  have hperform : (getBlock c name).perform w.toSurroundings w.toObjects =
      (match (w.context c).chainOf name with
        | v :: _ => .ok v
        | [] => .error (.report (.unknownBlock name.text)), w.toObjects) := by
    show (match (w.context c).chainOf name with
      | v :: _ => pure v
      | [] => failWith (.unknownBlock name.text) : Operation Value).perform w.toSurroundings
        w.toObjects = _
    cases (w.context c).chainOf name <;> rfl
  rw [outcome_lift, hperform]
  cases (w.context c).chainOf name <;> rfl

theorem Engine.outcome_contextMethod_text {o} (b : String) :
    (contextMethod c .getBlock [.value (.str (o := o) b)]).outcome w =
      match (w.context c).chain b with
      | v :: _ => (.ok (.value v), w)
      | [] => (.error (.fault (.report (.unknownBlock b))), w) := by
  show (liftM (getBlock c (.str b)) >>= fun v => pure (Cell.value v) : Eval Cell).outcome w = _
  have hchain : (w.context c).chainOf (.str b) = (w.context c).chain b := rfl
  rw [outcome_bind, outcome_getBlock, hchain]
  cases (w.context c).chain b <;> rfl

theorem Engine.outcome_contextMethod_getBlock {v rest}
    (hchain : (w.context c).chain b = v :: rest) :
    (contextMethod c .getBlock [.value (.ofText b)]).outcome w = (.ok (.value v), w) := by
  unfold Value.ofText
  rw [outcome_contextMethod_text, hchain]

theorem Engine.outcome_contextMethod_addBlock (c : Ref) (name : String) (v : Value) (w : World) :
    (contextMethod c .addBlock [.value (.ofText name), .value v]).outcome w = (.ok (.value .none),
        w.setContext c ((w.context c).addBlock name v)) := rfl

/-- Asking for an overridden block makes a function at most. -/
theorem Closed.contextMethod_getSuper {R entry method} (hR : Closed R entry method) (c : Ref)
    (args : List Cell) :
    Alike R (contextMethod c .getSuper args) (contextMethod c .getSuper args) := by
  unfold contextMethod
  split
  · exact (hR.getSuper _ _ _ _).bind fun v => Alike.pure _
  · refine (hR.lift _).bind fun vs => Alike.bind ?_ fun v => Alike.pure _
    unfold Engine.callContext
    split <;> first | cases ‹Attr.getSuper = _› | exact Alike.fail _

/-- Two ways of calling that do with a context what its methods do, unless a lookup comes away
empty. -/
def Call.Attends (call call' : Call) : Prop :=
  ∀ c field args, call.method (.context c) field args = contextMethod c field args ∧
    ∀ w : World, w.lacks (.context c) field args = false →
      (call'.method (.context c) field args).outcome w = (contextMethod c field args).outcome w

/-- Two ways of calling that differ in lookups of blocks that come away empty, at most. -/
structure Call.Tracks (call call' : Call) : Prop where
  evolves : call.Evolves Precedes
  result {self field args w u cell} :
    (call.method self field args).outcome w = (.ok cell, u) → ∀ c, ¬ cell.Reaches c
  template {args w u cell} :
    (call.method (.value .environment) .getTemplate args).outcome w = (.ok cell, u) →
    ∃ t < u.templates.size, cell = .value (.template t)
  context : (∀ self field args, call.method self field args = throw .outOfFuel ∧
      call'.method self field args = throw .outOfFuel) ∨ call.Attends call'

theorem Engine.tracks_intercepted (alarm : Eval Cell) (fuel : Nat) :
    (call fuel).Tracks (intercepted (lookupAlarm alarm) fuel) where
  evolves := evolves_call fuel
  result {self field args w u cell} h c := by
    cases fuel with
    | zero => cases h
    | succ fuel =>
      rcases result_callMethod h with ⟨v, rfl⟩ | ⟨f, rfl⟩ <;> exact id
  template {args w u cell} h := by
    cases fuel with
    | zero => cases h
    | succ fuel =>
      cases args with
      | nil => cases h
      | cons first rest =>
        cases first with
        | value name =>
          obtain ⟨vs, v, -, h⟩ := outcome_bind_eq_ok h
          obtain ⟨t, u', hload, h⟩ := outcome_bind_eq_ok h
          cases h
          exact ⟨t, lt_of_getTemplate hload, rfl⟩
        | _ => cases h
  context := by
    cases fuel with
    | zero => exact .inl fun _ _ _ => ⟨rfl, rfl⟩
    | succ fuel =>
      refine .inr fun c field args => ⟨callMethod_context _ c field args, fun w hw => ?_⟩
      show (get >>= fun w : World => if w.lacks (.context c) field args then alarm
        else callMethod (intercepted (lookupAlarm alarm) fuel) (.context c) field args).outcome w
        = _
      rw [outcome_get_bind, if_neg (by simp [hw]), callMethod_context]

/-- The state in which code in the activation `r` has found a template as its parent. -/
abbrev World.withParent (w : World) (r t : Ref) : World :=
  (w.assign r .parentTemplate (.value (.template t)))

/-! ## Code at work -/

/-- What is known of the activation in which code runs: what belongs to it, which blocks it sees,
which context it has at hand, and that this context has the blocks of the parent template once there
is one. -/
structure World.Running (w : World) (r : Ref) (own : List Ident) (known : String → Prop)
    (context? : Option Ref) : Prop where
  activation : ∃ a, w.activations.get? r = some a ∧ a.owned = own
  sees : known = fun b => ((blockSeen w.activations r b).isSome : Prop)
  inside (c : Ref) : Inside c w.activations r ↔ context? = some c
  parent {a t c} : w.activations.get? r = some a →
    a.vars.find? .parentTemplate = some (.value (.template t)) → context? = some c →
    t < w.templates.size ∧ ∀ b, (w.template t).chain b ⊆ (w.context c).chain b

namespace World.Running

variable {own : List Ident} {known : String → Prop} {context? : Option Ref}

theorem lt (h : w.Running r own known context?) : r < w.activations.size := by
  obtain ⟨a, ha, -⟩ := h.activation
  exact Store.get?_eq_some_lt ha

/-- What an activation sees of its surroundings stays, if the activation does. -/
theorem mono (h : w.Running r own known context?)
    (hself : u.activations.get? r = w.activations.get? r)
    (hseen : ∀ b, blockSeen u.activations r b = blockSeen w.activations r b)
    (hinside : ∀ c, Inside c u.activations r ↔ Inside c w.activations r) (hu : w.RetainedBy u) :
    u.Running r own known context? where
  activation := hself ▸ h.activation
  sees := h.sees.trans (by simp only [hseen])
  inside c := (hinside c).trans (h.inside c)
  parent {a t c} ha ht hc := by
    obtain ⟨hlt, hchain⟩ := h.parent (hself ▸ ha) ht hc
    refine ⟨Nat.lt_of_lt_of_le hlt hu.templates.1, fun b => ?_⟩
    have htemplate : u.template t = w.template t := by
      unfold Heap.template
      rw [hu.templates.2 t hlt]
    rw [htemplate]
    exact Subset.trans (hchain b) (hu.chain c b)

/-- Nothing the engine does by itself changes what an activation sees. -/
theorem closed : Closed (Always (Running · r own known context?)) anyEntry anyMethod := by
  have hstays {w u : World} (h : w.Running r own known context?)
      (hacts : u.activations = w.activations) (hu : w.RetainedBy u) :
      u.Running r own known context? :=
    h.mono (by rw [hacts]) (by simp [hacts]) (by simp [hacts]) hu
  have hsame {w w' : World} (h : Always (Running · r own known context?) w w') :
      Always w.RetainedBy w w' := ⟨h.1, .refl w⟩
  exact
    { twin := fun h => ⟨_, h.1⟩
      rest := fun h o ms s =>
        ⟨by rw [h.1], hstays h.2 rfl (RetainedBy.closed.rest (hsame h) o ms s).2⟩
      pushFrame := fun h f =>
        ⟨by rw [h.1], hstays h.2 rfl (RetainedBy.closed.pushFrame (hsame h) f).2⟩
      setFrame := fun h r f _ hf =>
        ⟨by rw [h.1], hstays h.2 rfl (RetainedBy.closed.setFrame (hsame h) r f trivial hf).2⟩
      pushContext := fun h r vars =>
        ⟨by rw [h.1], hstays h.2 rfl (RetainedBy.closed.pushContext (hsame h) r vars).2⟩
      entryFresh := fun _ _ _ _ _ => trivial
      entryRest := fun _ _ _ _ _ => trivial
      setContext := fun h r c hb =>
        ⟨by rw [h.1], hstays h.2 rfl (RetainedBy.closed.setContext (hsame h) r c hb).2⟩
      addBlock := fun h r name block _ =>
        ⟨by rw [h.1], hstays h.2 rfl (RetainedBy.closed.addBlock (hsame h) r name block trivial).2⟩
      pushSuper := fun h env r name next? hn =>
        ⟨by rw [h.1], hstays h.2 rfl (RetainedBy.closed.pushSuper (hsame h) env r name next? hn).2⟩
      entrySuper := fun _ _ _ _ _ _ _ => trivial }

theorem of_precedes (hw : w.Supplied) (h : w.Running r own known context?) (hu : u.Supplied)
    (hlater : w.Precedes u) : u.Running r own known context? :=
  h.mono (hlater.1.2 r h.lt)
    (fun _ => blockSeen_extends hw.nesting.activation hu.nesting.activation hlater.1 h.lt)
    (fun _ => inside_extends hw.nesting.activation hu.nesting.activation hlater.1 h.lt) hlater.2

/-- A variable that stands neither for the context nor for a block is assigned. -/
theorem assign (h : w.Running r own known context?) (hn : Nested w.activations)
    (hcontext : id ≠ .context) (hblock : ∀ b, id ≠ .blockName b) (hcell : ∀ c, ¬ cell.Reaches c)
    (hparent : id = .parentTemplate → ∀ t c, cell = .value (.template t) → context? = some c →
      t < w.templates.size ∧ ∀ b, (w.template t).chain b ⊆ (w.context c).chain b) :
    (w.assign r id cell).Running r own
      known context? where
  activation := by
    obtain ⟨a, ha, hown⟩ := h.activation
    exact ⟨a.assign id cell, by rw [w.activations.get?_modify_self, ha]; rfl, hown⟩
  sees := h.sees.trans (by simp only [blockSeen_assign hn hblock])
  inside c := (inside_assign hn (hcell c) (fun _ => hcontext) r).trans (h.inside c)
  parent {a t c} ha ht hc := by
    rw [w.activations.get?_modify_self, Option.map_eq_some_iff] at ha
    obtain ⟨b, hb, rfl⟩ := ha
    have ht : (b.vars.insert id cell).find? .parentTemplate = some (.value (.template t)) := ht
    by_cases hid : id = .parentTemplate
    · subst hid
      rw [b.vars.find?_insert_self] at ht
      exact hparent rfl t c (Option.some.inj ht) hc
    · rw [b.vars.find?_insert_of_ne (Ne.symm hid)] at ht
      exact h.parent hb ht hc

end World.Running

/-- A supplied state in which code runs in the activation `r`. -/
def Busy (r : Ref) (own : List Ident) (known : String → Prop) (context? : Option Ref) (w : World) :
    Prop :=
  w.Supplied ∧ w.Running r own known context?

/-- The content of a variable that does not lead to a context. -/
def Cell.Detached (cell : Cell) : Prop :=
  ∀ c, ¬ cell.Reaches c

namespace Busy

variable {own : List Ident} {known : String → Prop} {context? : Option Ref} {call call' : Call}
  {limit : Nat}

theorem supplied {w'} (h : Always (Busy r own known context?) w w') :
    Always Supplied w w' := ⟨h.1, h.2.1⟩

theorem closed : Closed (Always (Busy r own known context?)) Enterable apartFromBlocks :=
  Supplied.closed.always_and Running.closed

theorem assign (h : Busy r own known context? w) (id : Ident) (cell : Cell)
    (hcontext : id ≠ .context) (hblock : ∀ b, id ≠ .blockName b) (hcell : cell.Detached)
    (hparent : id = .parentTemplate → ∀ t c, cell = .value (.template t) → context? = some c →
      t < w.templates.size ∧ ∀ b, (w.template t).chain b ⊆ (w.context c).chain b) :
    Busy r own known context? (w.assign r id cell) :=
  ⟨h.1.assign id cell hcontext hblock hcell r,
    h.2.assign h.1.nesting.activation hcontext hblock hcell hparent⟩

theorem assign_ordinary (h : Busy r own known context? w) (hid : id.Ordinary)
    (hcell : cell.Detached) :
    Busy r own known context? (w.assign r id cell) :=
  h.assign id cell hid.1 hid.2.2 hcell fun hparent => (hid.2.1 hparent).elim

/-- What is read without a context at hand, or from another variable, does not lead to a context. -/
theorem detached_of_read (h : Busy r own known context? w) (hid : context? ≠ none → id ≠ .context)
    (hread : (read r id).outcome w = (.ok cell, u)) : cell.Detached := by
  intro c hreach
  rcases held_or_core_of_read hread with ⟨q, a, hq, ha, hfind⟩ | ⟨f, rfl⟩
  · obtain ⟨rfl, rfl, -⟩ := h.1.holder ha hfind hreach
    have hin : Inside c w.activations r := inside_iff.2 ((reads?_of_owner hq ha).trans hfind)
    exact hid (by rw [(h.2.inside c).1 hin]; exact Option.some_ne_none c) rfl
  · exact hreach

theorem alike_read (id : Ident) :
    Alike (Always (Busy r own known context?)) (read r id) (read r id) :=
  Always.alike_iff.2 fun w hw => by rwa [snd_outcome_read]

theorem read_context (h : Busy r own known (some c) w) :
    (read r .context).outcome w = (.ok (.context c), w) :=
  outcome_read_of_reads? (inside_iff.1 ((h.2.inside c).2 rfl))

/-- A block that code knows has a definition in the context at hand, which code holds in a
variable. -/
theorem exists_mem_chain (h : Busy r own known (some c) w) (hb : known b) :
    ∃ k, reads? w r (.blockName b) = some (.value (.function k)) ∧
      .function k ∈ (w.context c).chain b := by
  rw [h.2.sees] at hb
  obtain ⟨held?, hseen⟩ := Option.isSome_iff_exists.1 hb
  obtain ⟨k, rfl, hk⟩ := h.1.inside ((h.2.inside c).2 rfl) b held? hseen
  exact ⟨k, reads?_of_blockSeen hseen, hk⟩

section

variable (hg : call.Tracks call')
  (hc : CallsAlike (Always Supplied) Enterable apartFromBlocks call call')

include hg hc

theorem callsAlike :
    CallsAlike (Always (Busy r own known context?)) Enterable apartFromBlocks call call' :=
  hc.always_and (fun _ _ => Running.of_precedes) hg.evolves

/-- Code that does not touch the context at hand. -/
theorem conductsAway {π} (hreads : ∀ id, π.reads id → context? ≠ none → id ≠ .context)
    (hwrites : ∀ id, π.writes id → id.Ordinary) (hdefines : ∀ params body, π.defines params body →
      (∀ id ∈ params, id.Ordinary) ∧ Refers known (ownedBy params body) body)
    (hwhole : ∀ callee args, ¬ π.whole callee args) :
    Conducts (Always (Busy r own known context?)) Enterable apartFromBlocks call call' r π
      Cell.Detached where
  toClosed := closed
  toCallsAlike := callsAlike hg hc
  heldValue _ _ := id
  heldMethod _ h := h
  heldResult self field args hpermit :=
    ((callsAlike hg hc).method self field args hpermit).gets fun _ _ _ _ hrun => hg.result hrun
  allowsMethod h c hself := (h c (by rw [hself]; rfl)).elim
  allowsEntry _ h _ _ _ := (h _ rfl).elim
  read id hid := (alike_read id).gets fun _ _ _ hw => hw.detached_of_read (hreads id hid)
  write id cell hid hcell := Always.alike_iff.2 fun w hw =>
    hw.assign_ordinary (hwrites id hid) hcell
  define name params captured body hbody hcaptured := Always.alike_iff.2 fun w hw => by
    obtain ⟨hparams, hrefers⟩ := hdefines _ _ hbody
    refine ⟨hw.1.pushFunction ?_ (fun _ _ _ _ hf => nomatch hf), hw.2.mono rfl (fun _ => rfl)
      (fun _ => Iff.rfl) ⟨Extends.refl _, fun _ _ => Subset.refl _⟩⟩
    rintro f ⟨⟩
    exact ⟨hcaptured, .inr hparams, rfl, r, hw.2.lt, rfl, hw.2.sees ▸ hrefers⟩
  whole callee args h := (hwhole callee args h).elim

/-- Code without a context at hand. -/
theorem conductsFree :
    Conducts (Always (Busy r own known none)) Enterable apartFromBlocks call call'
      r ⟨⟨fun _ => True, Ident.Ordinary, fun _ => True, fun _ _ => False⟩, fun _ _ => False⟩
      Cell.Detached :=
  conductsAway hg hc (fun _ _ h => (h rfl).elim) (fun _ h => h) (fun _ _ h => h.elim) fun _ _ h => h

omit hg hc in
/-- Variables and constants are evaluated without calls and without a change. -/
theorem evalAll_eq (call call' : Call) (r : Ref) :
    ∀ es : List Expr, (∀ e ∈ es, (∃ id, e = .name id) ∨ ∃ k, e = .const k) →
    evalAll call' r es = evalAll call r es ∧ ∀ w, ((evalAll call r es).outcome w).2 = w
  | [], _ => ⟨rfl, fun _ => rfl⟩
  | e :: rest, h => by
    obtain ⟨hrest, hsame⟩ := evalAll_eq call call' r rest fun e he => h e (mem_cons_of_mem _ he)
    have hfirst : eval call' r e = eval call r e ∧ ∀ w, ((eval call r e).outcome w).2 = w := by
      rcases h e mem_cons_self with ⟨id, rfl⟩ | ⟨k, rfl⟩
      · exact ⟨rfl, snd_outcome_read r id⟩
      · exact ⟨rfl, fun _ => rfl⟩
    refine ⟨by rw [evalAll, evalAll, hfirst.1, hrest], fun w => ?_⟩
    have hfirst := hfirst.2 w
    have hsame := hsame w
    rw [evalAll, outcome_bind]
    rcases he : (eval call r e).outcome w with ⟨_ | cell, v⟩ <;> rw [he] at hfirst <;> subst hfirst
    · rfl
    · show ((evalAll call r rest >>= fun cs => pure (cell :: cs)).outcome v).2 = v
      rw [outcome_bind]
      rcases hr : (evalAll call r rest).outcome v with ⟨_ | cs, v'⟩ <;> rw [hr] at hsame <;>
        subst hsame <;> rfl

omit hg hc in
/-- So it is enough to go on from what they give. -/
theorem agree_evalAll {β : Type} {post stop} {k k' : List Cell → Eval β} {es : List Expr}
    (hes : ∀ e ∈ es, (∃ id, e = .name id) ∨ ∃ k, e = .const k) (hstop : stop w w)
    (hrest : ∀ cells, (evalAll call r es).outcome w = (.ok cells, w) →
      Agree post stop ((k cells).outcome w) ((k' cells).outcome w)) :
    Agree post stop ((evalAll call r es >>= k).outcome w)
      ((evalAll call' r es >>= k').outcome w) := by
  obtain ⟨heq, hsame⟩ := evalAll_eq call call' r es hes
  have hsame := hsame w
  rw [heq]
  rcases hcells : (evalAll call r es).outcome w with ⟨e | cells, u⟩ <;>
    rw [hcells] at hsame <;> subst hsame
  · rw [outcome_bind_of_error hcells, outcome_bind_of_error hcells]
    exact .error hstop
  · rw [outcome_bind_of_ok hcells, outcome_bind_of_ok hcells]
    exact hrest cells hcells

omit hg hc in
/-- An entry point is entered with the context at hand. -/
theorem context_of_entryArgs {cells} (h : Busy r own known (some c) w)
    (hcells : (evalAll call r Expr.entryArgs).outcome w = (.ok cells, u)) {env d f}
    (hentry : entryArguments? cells = some (env, d, f)) : d = c := by
  obtain ⟨first, v, rest, rfl, hfirst, hrest⟩ := outcome_evalAll_cons_eq_ok hcells
  obtain ⟨second, v', rest', rfl, hsecond, -⟩ := outcome_evalAll_cons_eq_ok hrest
  have hv : v = w := (congrArg Prod.snd hfirst).symm.trans (snd_outcome_read r .env w)
  subst hv
  cases hsecond.symm.trans h.read_context
  unfold entryArguments? at hentry
  split at hentry
  · rename_i hargs
    cases hargs
    cases hentry
    rfl
  · cases hentry

/-- What the context at hand may be used for when a value is entered that may be entered. -/
theorem agree_entry {v} (h : Busy r own known (some c) w) (hv : w.Enterable c v) :
    Agree (fun a b u u' => b = a ∧ a.Detached ∧ Always (Busy r own known (some c)) u u')
      (Always (Busy r own known (some c)))
      ((evalAll call r Expr.entryArgs >>= callCell call (.value v)).outcome w)
      ((evalAll call' r Expr.entryArgs >>= callCell call' (.value v)).outcome w) := by
  have haway : Conducts (Always (Busy r own known (some c))) Enterable apartFromBlocks call
      call' r ⟨⟨fun _ => False, fun _ => False, fun _ => False, fun _ _ => False⟩,
        fun _ _ => False⟩ Cell.Detached :=
    conductsAway hg hc (fun _ h => h.elim) (fun _ h => h.elim) (fun _ _ h => h.elim) fun _ _ h => h
  refine agree_evalAll (by simp [Expr.entryArgs]) ⟨rfl, h⟩ fun cells hcells => ?_
  refine haway.agree_callCell (fun _ => id) ⟨rfl, h⟩ fun f env d frame hf hentry => ?_
  cases hf
  rw [h.context_of_entryArgs hcells hentry]
  exact hv

/-- A known block is rendered. -/
theorem gets_block (hb : known b) : Gets (Always (Busy r own known (some c))) Cell.Detached
      (eval call r (.call (.method (.name .context) .getBlock [.text b]) Expr.entryArgs))
      (eval call' r (.call (.method (.name .context) .getBlock [.text b]) Expr.entryArgs)) := by
  rintro _ w ⟨rfl, hw⟩
  have hlookup (call : Call) :
      (eval call r (.method (.name .context) .getBlock [.text b])).outcome w =
        (call.method (.context c) .getBlock [.value (.ofText b)]).outcome w :=
    outcome_eval_method .getBlock hw.read_context rfl (outcome_evalAll_cons rfl outcome_evalAll_nil)
  show Agree _ _ ((eval call r (.method (.name .context) .getBlock [.text b]) >>= fun f =>
      evalAll call r Expr.entryArgs >>= callCell call f).outcome w)
    ((eval call' r (.method (.name .context) .getBlock [.text b]) >>= fun f =>
      evalAll call' r Expr.entryArgs >>= callCell call' f).outcome w)
  rcases hg.context with hfuel | hmethod
  · rw [outcome_bind_of_error ((hlookup call).trans (by rw [(hfuel _ _ _).1]; rfl)),
      outcome_bind_of_error ((hlookup call').trans (by rw [(hfuel _ _ _).2]; rfl))]
    exact .error ⟨rfl, hw⟩
  · obtain ⟨k, -, hk⟩ := hw.exists_mem_chain hb
    obtain ⟨v, rest, hchain⟩ := exists_cons_of_ne_nil (ne_nil_of_mem hk)
    have hfound := outcome_contextMethod_getBlock hchain
    have hlacks : w.lacks (.context c) .getBlock [.value (.ofText b)] = false := by
      show ((w.context c).chain b).isEmpty = false
      rw [hchain]
      rfl
    have hcall := (hmethod c .getBlock [.value (.ofText b)]).1
    have hcall' := (hmethod c .getBlock [.value (.ofText b)]).2 w hlacks
    rw [outcome_bind_of_ok ((hlookup call).trans (by rw [hcall, hfound])),
      outcome_bind_of_ok ((hlookup call').trans (by rw [hcall', hfound]))]
    refine agree_entry hg hc hw (hw.1.enterable_of_mem_chainOf (.str b) ?_)
    show v ∈ (w.context c).chain b
    rw [hchain]
    exact mem_cons_self

omit hc in
/-- The function behind the running one is asked for. -/
theorem gets_overridden (hb : known b) : Gets (Always (Busy r own known (some c))) Cell.Detached
      (eval call r (.call (.attr (.name .context) .getSuper)
        [.name .env, .text b, .name (.blockName b), .name .runtime]))
      (eval call' r (.call (.attr (.name .context) .getSuper)
        [.name .env, .text b, .name (.blockName b), .name .runtime])) := by
  refine (gets_contextMethod (fun _ => read_context) .getSuper).bind ?_
  rintro _ rfl _ w ⟨rfl, hw⟩
  show Agree _ _ ((evalAll call r _ >>= call.method (.context c) .getSuper).outcome w)
    ((evalAll call' r _ >>= call'.method (.context c) .getSuper).outcome w)
  refine agree_evalAll (by simp [Expr.text]) ⟨rfl, hw⟩ fun cells hcells => ?_
  rcases hg.context with hfuel | hmethod
  · rw [(hfuel _ _ _).1, (hfuel _ _ _).2]
    exact .error ⟨rfl, hw⟩
  · obtain ⟨k, hread, hk⟩ := hw.exists_mem_chain hb
    have hlacks : w.lacks (.context c) .getSuper cells = false := by
      obtain ⟨_, v, rest, rfl, henv, hcells⟩ := outcome_evalAll_cons_eq_ok hcells
      obtain rfl : w = v := (snd_outcome_read r .env w).symm.trans (congrArg Prod.snd henv)
      obtain ⟨_, _, rest, rfl, ⟨⟩, hcells⟩ := outcome_evalAll_cons_eq_ok hcells
      obtain ⟨_, v, rest, rfl, hblock, hcells⟩ := outcome_evalAll_cons_eq_ok hcells
      cases hblock.symm.trans (outcome_read_of_reads? hread)
      obtain ⟨_, v, rest, rfl, -, hcells⟩ := outcome_evalAll_cons_eq_ok hcells
      cases hcells
      have hany : ((w.context c).chain b).any (·.identical (.function k)) = true :=
        any_eq_true.2 ⟨_, hk, by simp [Value.identical]⟩
      show (!((w.context c).chain b).any (·.identical (.function k))) = false
      rw [hany]
      rfl
    have halike : Alike (Always (Busy r own known (some c)))
        (contextMethod c .getSuper cells) (contextMethod c .getSuper cells) :=
      closed.contextMethod_getSuper c cells
    have hgets : Gets (Always (Busy r own known (some c))) Cell.Detached
        (contextMethod c .getSuper cells) (contextMethod c .getSuper cells) :=
      halike.gets fun _ _ _ _ hrun => hg.result (by rw [(hmethod _ _ _).1]; exact hrun)
    rw [(hmethod c .getSuper cells).1, (hmethod c .getSuper cells).2 w hlacks]
    exact hgets w w ⟨rfl, hw⟩

/-- Code that names known blocks only. -/
theorem conducts {π} (hreads : ∀ id, π.reads id ↔ id ≠ .context)
    (hwrites : ∀ id, π.writes id → id.Ordinary) (hfields : ∀ field, π.fields field)
    (hdefines : ∀ params body, π.defines params body →
      (∀ id ∈ params, id.Ordinary) ∧ Refers known (ownedBy params body) body)
    (hwhole : ∀ callee args, π.whole callee args → Consults known callee args) :
    Conducts (Always (Busy r own known context?)) Enterable apartFromBlocks call call' r π
      Cell.Detached := by
  have haway : Conducts (Always (Busy r own known context?)) Enterable apartFromBlocks call
      call' r { π with whole := fun _ _ => False } Cell.Detached :=
    conductsAway hg hc (fun id h _ => (hreads id).1 h) hwrites hdefines fun _ _ h => h
  refine { haway with whole := fun callee args hcall => ?_ }
  cases context? with
  | none =>
    refine (conductsFree hg hc).eval (.call callee args) ?_
    cases hwhole callee args hcall with
    | method hfield hargs =>
      exact .inr ⟨⟨trivial, trivial⟩, Plain.obeyIn (fun _ _ => trivial) hargs⟩
    | block =>
      exact .inr ⟨.inr ⟨⟨trivial, trivial⟩, trivial, trivial⟩, trivial, trivial, trivial, trivial,
        trivial⟩
    | overridden =>
      exact .inr ⟨⟨trivial, trivial⟩, trivial, trivial, trivial, trivial, trivial⟩
    | search x => exact .inr ⟨⟨trivial, trivial⟩, trivial, trivial, trivial, trivial⟩
  | some c =>
    cases hwhole callee args hcall with
    | @method field args hfield hargs =>
      refine (gets_contextMethod (fun _ => read_context) field).bind ?_
      rintro _ rfl
      have hplain := Plain.obeyIn (π := { π.toAccess with whole := fun _ _ => False })
        (fun id => (hreads id).2) hargs
      refine (haway.evalAll args hplain).bind fun cells _ => ?_
      exact ((callsAlike hg hc).method (.context c) field cells fun _ _ => hfield).gets
        fun _ _ _ _ hrun => hg.result hrun
    | block hb => exact gets_block hg hc hb
    | overridden hb => exact gets_overridden hg hb
    | search x =>
      have hcallee := haway.eval (.attr (.name .runtime) .resolve)
        ⟨hfields _, (hreads _).2 Ident.noConfusion⟩
      refine hcallee.bind ?_
      rintro cell hcell _ w ⟨rfl, hw⟩
      refine agree_evalAll (by simp [Expr.text]) ⟨rfl, hw⟩ fun cells hcells => ?_
      refine haway.agree_callCell hcell ⟨rfl, hw⟩ fun f env d frame _ hentry => ?_
      -- An entry point takes four arguments.
      obtain ⟨_, _, _, rfl, -, hcells⟩ := outcome_evalAll_cons_eq_ok hcells
      obtain ⟨_, _, _, rfl, -, hcells⟩ := outcome_evalAll_cons_eq_ok hcells
      obtain ⟨_, _, _, rfl, -, hcells⟩ := outcome_evalAll_cons_eq_ok hcells
      cases hcells
      unfold entryArguments? at hentry
      split at hentry
      · rename_i hargs
        cases hargs
      · cases hentry

/-! ### Inheritance -/

omit hc in
/-- What is found as the parent template is a template. -/
theorem template_of_run {args}
    (hrun : (eval call r (.method (.name .env) .getTemplate args)).outcome w = (.ok cell, u)) :
    call.Attends call' ∧ ∃ t < u.templates.size, cell = .value (.template t) := by
  obtain ⟨callee, v, hcallee, hrun⟩ := outcome_bind_eq_ok hrun
  obtain ⟨cells, v', -, hrun⟩ := outcome_bind_eq_ok hrun
  obtain ⟨env, v'', -, hcallee⟩ := outcome_bind_eq_ok hcallee
  have hmethod : hasMethod env .getTemplate = true ∧ callee = .method env .getTemplate := by
    unfold fieldOf at hcallee
    split at hcallee
    · cases ‹Attr.getTemplate = _›
    · cases ‹Attr.getTemplate = _›
    · split at hcallee
      · cases hcallee
        exact ⟨‹_›, rfl⟩
      · cases hcallee
  obtain ⟨henv, rfl⟩ := hmethod
  obtain rfl : env = .value .environment := by
    unfold hasMethod at henv
    split at henv <;> first | rfl | cases ‹Attr.getTemplate = _› | cases henv
  refine ⟨hg.context.resolve_left fun hfuel => ?_, hg.template hrun⟩
  have hrun : (call.method (.value .environment) .getTemplate cells).outcome v' = _ := hrun
  rw [(hfuel _ _ _).1] at hrun
  cases hrun

omit hg hc in
/-- The blocks of a parent are added to the context at hand. -/
theorem adopt (h : Busy r own known (some c) w) {t} (ht : t < w.templates.size) (k : Nat) :
    Busy r own known (some c)
      ((w.withParent r t).adopt r c (.temp k) (w.template t).blocks.entries) := by
  have hlt : c < w.contexts.size := h.1.lt_of_inside ((h.2.inside c).2 rfl)
  have hadded : Busy r own known (some c) (w.setContext c
      ((w.template t).blocks.entries.foldl (fun c e => c.addBlock e.1 e.2) (w.context c))) :=
    ⟨h.1.addBlocks hlt t, h.2.mono rfl (fun _ => rfl) (fun _ => Iff.rfl)
      ⟨Extends.refl _, RetainedBy.chain_set fun b => by
        rw [Context.chain_foldl_addBlock (w.template t).nodup_blocks]
        exact subset_append_left _ _⟩⟩
  have hparent := hadded.assign .parentTemplate (.value (.template t))
    Ident.noConfusion (fun _ => Ident.noConfusion) (fun _ => id) (by
      rintro - _ _ ⟨⟩ ⟨⟩
      refine ⟨ht, fun b v hv => ?_⟩
      rw [World.context_set hlt, Context.chain_foldl_addBlock (w.template t).nodup_blocks]
      exact mem_append_right _ hv)
  have hassigned (entries : List (String × Value)) : ∀ {u : World}, Busy r own known (some c) u →
      Busy r own known (some c) { u with
          activations := entries.foldl (fun acts e =>
            acts.modify r (·.assign (.temp k) (.value (.ofText e.1)))) u.activations } := by
    induction entries with
    | nil => exact id
    | cons e rest ih => exact fun hu => ih (hu.assign_ordinary (.temp k) fun _ => id)
  exact hassigned _ hparent

omit hg hc in
/-- Code that has found a parent template is about to add its blocks. -/
theorem adopting (h : Busy r own known (some c) w) (hown : .parentTemplate ∈ own) {k}
    (hkey : .temp k ∈ own) (t : Ref) : (w.withParent r t).Adopting r c t k := by
  obtain ⟨a, ha, rfl⟩ := h.2.activation
  have hn : Nested w.activations := h.1.nesting.activation
  exact
    { nested := (h.1.assign .parentTemplate (.value (.template t))
        Ident.noConfusion (fun _ => Ident.noConfusion) (fun _ => id) r).nesting.activation
      owned := ⟨a.assign .parentTemplate (.value (.template t)),
        by rw [w.activations.get?_modify_self, ha]; rfl, hkey⟩
      parent := reads?_assign_self _ hn ha hown
      context := (reads?_assign_of_ne _ hn Ident.noConfusion).trans
        (inside_iff.1 ((h.2.inside c).2 rfl))
      lt := h.1.lt_of_inside ((h.2.inside c).2 rfl) }

/-- A parent template is looked for, and its blocks are added. -/
theorem passes_inheritance {parent k} (hparent : parent.Obeys (referring known))
    (hown : .parentTemplate ∈ own) (hkey : .temp k ∈ own) :
    Passes (Always (Busy r own known context?)) (Always Supplied)
      (execAll call limit r (inheritance parent (.temp k)))
      (execAll call' limit r (inheritance parent (.temp k))) := by
  have hplain : Conducts (Always (Busy r own known context?)) Enterable apartFromBlocks call
      call' r (referringPolicy known) Cell.Detached :=
    conducts hg hc (fun _ => Iff.rfl) (fun _ h => h) (fun _ => trivial) (fun _ _ h => h.elim)
      fun _ _ h => h
  have hfind := hplain.eval (.method (.name .env) .getTemplate [parent, .const (.bool true)])
    (refers_method Ident.noConfusion ⟨hparent, trivial, trivial⟩)
  rw [inheritance_eq]
  cases context? with
  | none =>
    have hassign : Alike (Always (Busy r own known none))
        (exec call limit r (.assign .parentTemplate
          (.method (.name .env) .getTemplate [parent, .const (.bool true)])))
        (exec call' limit r (.assign .parentTemplate
          (.method (.name .env) .getTemplate [parent, .const (.bool true)]))) := by
      refine hfind.bind_alike fun cell hcell => Alike.bind ?_ fun _ => Alike.pure none
      exact Always.alike_iff.2 fun w hw => hw.assign _ _ Ident.noConfusion
        (fun _ => Ident.noConfusion) hcell fun _ _ _ _ hnone => nomatch hnone
    have hadopt : Alike (Always (Busy r own known none)) _ _ := (conductsFree hg hc).exec limit
      (adoption (.temp k))
      ⟨forall_mem_singleton.2 (.temp k), ⟨trivial, trivial⟩,
        .inr ⟨⟨trivial, trivial⟩, trivial, ⟨⟨trivial, trivial⟩, trivial⟩, trivial⟩, trivial⟩
    exact (Leads.single (.of_alike hassign fun _ _ => supplied)).append
      (Leads.single (.of_alike hadopt fun _ _ => supplied))
  | some c =>
    rintro _ w ⟨rfl, hw⟩
    obtain ⟨cell, _, u, _, hu, hu', rfl, -, rfl, hbusy⟩ | ⟨e, u, _, hu, hu', h⟩ :=
      (hfind w w ⟨rfl, hw⟩).results_or_halt
    · obtain ⟨hattends, t, ht, rfl⟩ := template_of_run hg hu
      have hadopting := hbusy.adopting hown hkey t
      have hadopt := hadopting.outcome_adoption call limit fun name v w => by
        rw [(hattends c .addBlock _).1, outcome_contextMethod_addBlock]
      have hadopt' := hadopting.outcome_adoption call' limit fun name v w => by
        rw [(hattends c .addBlock _).2 w rfl, outcome_contextMethod_addBlock]
      rw [outcome_execAll_cons (outcome_exec_assign hu),
        outcome_execAll_cons (outcome_exec_assign hu'), execAll_singleton, execAll_singleton,
        hadopt, hadopt']
      have hdone := hbusy.adopt ht k
      exact .ok ⟨rfl, ⟨rfl, hdone.1⟩, fun _ => ⟨rfl, hdone⟩⟩
    · rw [outcome_execAll_cons_of_error (outcome_bind_of_error hu _),
        outcome_execAll_cons_of_error (outcome_bind_of_error hu' _)]
      exact .error (supplied h)

omit hg hc in
/-- The root of the parent template may be entered with the context at hand. -/
theorem outcome_parentRoot (h : Busy r own known (some c) w) (hown : .parentTemplate ∈ own)
    (call : Call) :
    (∃ e, (eval call r (.attr (.name .parentTemplate) .rootRenderFunc)).outcome w = (.error e, w)) ∨
      ∃ v, w.Enterable c v ∧
        (eval call r (.attr (.name .parentTemplate) .rootRenderFunc)).outcome w =
        (.ok (.value v), w) := by
  obtain ⟨a, ha, rfl⟩ := h.2.activation
  show (∃ e, (read r .parentTemplate >>= fun x => fieldOf x .rootRenderFunc).outcome w =
      (.error e, w)) ∨ ∃ v, _ ∧
    (read r .parentTemplate >>= fun x => fieldOf x .rootRenderFunc).outcome w = (.ok (.value v), w)
  cases hfind : a.vars.find? .parentTemplate with
  | none =>
    refine .inl ⟨.fault (.unboundLocal .parentTemplate), outcome_bind_of_error ?_ _⟩
    rw [outcome_read, ownerOf_eq_self h.1.nesting.activation ha hown]
    simp [ha, hfind, ownsIn, hown]
  | some cell =>
    rw [outcome_bind_of_ok (outcome_read_own ha hown hfind)]
    cases cell with
    | value v =>
      cases v with
      | template t =>
        obtain ⟨-, hchain⟩ := h.2.parent ha hfind rfl
        refine .inr ⟨(w.template t).root, ⟨h.1.lt_of_inside ((h.2.inside c).2 rfl), ?_⟩, rfl⟩
        exact (h.1.template t (.inl rfl)).mono h.1.nesting hchain (Extends.refl _) fun _ _ _ => rfl
      | _ => exact .inl ⟨_, rfl⟩
    | _ => exact .inl ⟨_, rfl⟩

theorem gets_parentRoot (hown : .parentTemplate ∈ own) :
    Gets (Always (Busy r own known (some c))) Cell.Detached
      (eval call r (.method (.name .parentTemplate) .rootRenderFunc Expr.entryArgs))
      (eval call' r (.method (.name .parentTemplate) .rootRenderFunc Expr.entryArgs)) := by
  rintro _ w ⟨rfl, hw⟩
  show Agree _ _ ((eval call r (.attr (.name .parentTemplate) .rootRenderFunc) >>= fun f =>
      evalAll call r Expr.entryArgs >>= callCell call f).outcome w)
    ((eval call r (.attr (.name .parentTemplate) .rootRenderFunc) >>= fun f =>
      evalAll call' r Expr.entryArgs >>= callCell call' f).outcome w)
  obtain ⟨e, he⟩ | ⟨v, hv, hrun⟩ := hw.outcome_parentRoot hown call
  · rw [outcome_bind_of_error he, outcome_bind_of_error he]
    exact .error ⟨rfl, hw⟩
  · rw [outcome_bind_of_ok hrun, outcome_bind_of_ok hrun]
    exact agree_entry hg hc hw hv

/-- The render is handed over to the parent template. -/
theorem passes_delegation (child : Bool) (hown : .parentTemplate ∈ own) :
    Passes (Always (Busy r own known context?)) (Always Supplied)
      (execAll call limit r (delegation child))
      (execAll call' limit r (delegation child)) := by
  cases child with
  | false => exact .of_alike (Alike.pure none) fun _ _ => supplied
  | true =>
    refine Leads.single (.of_alike ?_ fun _ _ => supplied)
    cases context? with
    | none =>
      exact (conductsFree hg hc).exec limit _ ⟨⟨trivial, trivial, trivial⟩,
        ⟨.inr ⟨⟨trivial, trivial⟩, trivial, trivial, trivial, trivial, trivial⟩, trivial⟩, trivial⟩
    | some c =>
      have haway : Conducts (Always (Busy r own known (some c))) Enterable apartFromBlocks call
          call' r ⟨⟨(· ≠ .context), fun _ => False, fun _ => False, fun _ _ => False⟩,
            fun _ _ => False⟩ Cell.Detached :=
        conductsAway hg hc (fun _ h _ => h) (fun _ h => h.elim) (fun _ _ h => h.elim) fun _ _ h => h
      have htest := haway.eval (.compare (.name .parentTemplate) [(.isNot, .const .null)])
        ⟨Ident.noConfusion, trivial, trivial⟩
      have hreturn : Alike (Always (Busy r own known (some c))) (execAll call limit r
            [.ret (.method (.name .parentTemplate) .rootRenderFunc Expr.entryArgs)])
          (execAll call' limit r
            [.ret (.method (.name .parentTemplate) .rootRenderFunc Expr.entryArgs)]) := by
        rw [execAll_singleton, execAll_singleton]
        exact (gets_parentRoot hg hc hown).bind_alike fun cell _ => Alike.pure (some cell)
      refine htest.alike.bind fun cell => (haway.operate _).bind fun v => ?_
      exact closed.get_bind (fun _ => Alike.ite hreturn (Alike.pure none)) fun _ _ => rfl

/-- Code that names known blocks only finds them. -/
theorem passes {ss} (h : Refers known own ss) :
    Passes (Always (Busy r own known context?)) (Always Supplied) (execAll call limit r ss)
      (execAll call' limit r ss) := by
  have hstart {own : List Ident} (w w' : World) (hw : Always (Busy r own known context?) w w') :
      Always Supplied w w' := supplied hw
  have hconducts {own : List Ident} {defines : List Ident → List Stmt → Prop}
      (hdefines : ∀ params body, defines params body →
        (∀ id ∈ params, id.Ordinary) ∧ Refers known (ownedBy params body) body) :
      Conducts (Always (Busy r own known context?)) Enterable apartFromBlocks call call' r
        { referring known with defines } Cell.Detached :=
    conducts hg hc (fun _ => Iff.rfl) (fun _ h => h) (fun _ => trivial) hdefines fun _ _ h => h
  have hplain {own : List Ident} :
      Conducts (Always (Busy r own known context?)) Enterable apartFromBlocks call call' r
        (referringPolicy known) Cell.Detached := hconducts fun _ _ => False.elim
  induction h with
  | nil => exact .of_alike (Alike.pure none) hstart
  | append _ _ ih ih' => exact Leads.append ih ih'
  | plain hs => exact Leads.single (.of_alike (hplain.exec limit _ hs) hstart)
  | branch htest _ _ ih ih' =>
    refine Leads.single (.after hstart (hplain.eval _ htest).alike fun c => ?_)
    refine .after hstart (hplain.operate _) fun v => ?_
    rintro _ w ⟨rfl, hw⟩
    rw [outcome_get_bind, outcome_get_bind]
    split
    · exact ih w w ⟨rfl, hw⟩
    · exact ih' w w ⟨rfl, hw⟩
  | loop htarget hsource _ ih =>
    refine Leads.single (.after hstart (hplain.eval _ hsource).alike fun c => ?_)
    refine .after hstart (hplain.operate _) fun v => ?_
    refine .runLoop hplain.toClosed hstart (fun u => ?_) limit v
    exact .after hstart (hplain.assignTarget htarget u) fun _ => ih
  | define hname hcaptured hparams hbody _ =>
    exact Leads.single (.of_alike
      ((hconducts fun _ _ h => h).exec limit _ ⟨hname, hcaptured, hparams, hbody⟩) hstart)
  | orphan =>
    refine Leads.single ?_
    rintro _ w ⟨rfl, hw⟩
    have hnone := hw.assign .parentTemplate (.value .none) Ident.noConfusion
      (fun _ => Ident.noConfusion) (fun _ => id) fun _ _ _ ht => nomatch ht
    exact .ok ⟨rfl, ⟨rfl, hnone.1⟩, fun _ => ⟨rfl, hnone⟩⟩
  | inheritance hparent hown hkey => exact passes_inheritance hg hc hparent hown hkey
  | delegation child hown => exact passes_delegation hg hc child hown

end

end Busy

/-! ## What the engine keeps -/

theorem exists_context? (acts : Store Activation) (r : Ref) :
    ∃ context? : Option Ref, ∀ c, Inside c acts r ↔ context? = some c := by
  unfold Inside
  generalize ((ownerOf acts .context r).bind acts.get?).bind (·.vars.find? .context) = held?
  by_cases h : ∃ c, held? = some (.context c)
  · obtain ⟨c, rfl⟩ := h
    exact ⟨some c, fun d => by simp⟩
  · exact ⟨none, fun c => by simpa using fun hc => h ⟨c, hc⟩⟩

namespace World.Supplied

variable {q : Ref} {f : Closure} {args : List Cell}

/-- A call of a function finds the blocks that the function saw where it was defined. -/
theorem blockSeen_activation (h : w.Supplied) (hq : w.functions.get? q = some (.closure f)) {o}
    (ho : f.outer = some o) (b : String) :
    blockSeen (w.activations.push (f.activation args)) w.activations.size b =
      blockSeen w.activations o b := by
  have hlt := h.nesting.closure hq ho
  have hnested : Nested (w.activations.push (f.activation args)) :=
    (h.nesting.pushActivation fun p hp => h.nesting.closure hq hp).activation
  rw [blockSeen_outer hnested (w.activations.get?_push_self _) ((h.closure hq).not_blockName b)]
  show f.outer.bind _ = _
  rw [ho]
  exact blockSeen_extends h.nesting.activation hnested ((Extends.refl _).push _) hlt

/-- A function that is called with values has at hand what it had where it was defined, or
nothing. -/
theorem activate (h : w.Supplied) (hq : w.functions.get? q = some (.closure f)) (vs : List Value) :
    (w.activate f (vs.map .value)).Supplied := by
  have hhosted := h.closure hq
  have hvars {id : Ident} {cell : Cell} {c : Ref}
      (hfind : (f.activation (vs.map .value)).vars.find? id = some cell) : ¬ cell.Reaches c := by
    rcases mem_append.1 (mem_of_find?_ofList hfind) with hmem | hmem
    · obtain ⟨v, -, hv⟩ := mem_map.1 (of_mem_zip hmem).2
      cases hv
      exact fun hreach => hreach
    · exact hhosted.captured _ hmem c
  have hnested : Nested (w.activations.push (f.activation (vs.map .value))) :=
    (h.nesting.pushActivation fun p hp => h.nesting.closure hq hp).activation
  refine h.pushActivation (fun o ho => h.nesting.closure hq ho)
    (fun id cell c hfind hreach => (hvars hfind hreach).elim) fun c hin => ?_
  have hself := w.activations.get?_push_self (f.activation (vs.map .value))
  by_cases hown : .context ∈ f.owned
  · rw [inside_of_owned hnested hself hown] at hin
    exact (hvars hin rfl).elim
  · rw [inside_of_not_owned hnested hself hown] at hin
    obtain ⟨o, ho, hin⟩ := hin
    rw [inside_extends h.nesting.activation hnested ((Extends.refl _).push _)
      (h.nesting.closure hq ho)] at hin
    exact (h.inside hin).mono (fun _ => Subset.refl _) fun b => h.blockSeen_activation hq ho b

/-- An entry point that is entered with a context has that context at hand. -/
theorem activateEntry (h : w.Supplied) (hq : w.functions.get? q = some (.closure f)) (env : Value)
    (frame : Ref) (hentry : w.Enterable c (.function q)) :
    (w.activate f (entryCells env c frame)).Supplied := by
  obtain ⟨hlt, hopens⟩ := hentry
  obtain ⟨g, o, hg, hparams, hcaptured, ho, hsupplies⟩ := hopens q rfl
  cases hq.symm.trans hg
  have hvars : (f.activation (entryCells env c frame)).vars = ofList [(.env, .value env),
      (.context, .context c), (.frame, .frame frame), (.runtime, .runtime)] := by
    show ofList (f.params.zip _ ++ f.captured) = _
    rw [hparams, hcaptured]
    rfl
  have hholder {id : Ident} {cell : Cell} {d : Ref}
      (hfind : (f.activation (entryCells env c frame)).vars.find? id = some cell)
      (hreach : cell.Reaches d) : id = .context ∧ cell = .context d ∧ d = c := by
    rw [hvars] at hfind
    have hmem := mem_of_find?_ofList hfind
    simp only [mem_cons, Prod.mk.injEq, not_mem_nil, or_false] at hmem
    rcases hmem with ⟨-, rfl⟩ | ⟨rfl, rfl⟩ | ⟨-, rfl⟩ | ⟨-, rfl⟩
    · exact hreach.elim
    · cases hreach
      exact ⟨rfl, rfl, rfl⟩
    · exact hreach.elim
    · exact hreach.elim
  have hnested : Nested (w.activations.push (f.activation (entryCells env c frame))) :=
    (h.nesting.pushActivation fun p hp => h.nesting.closure hq hp).activation
  refine h.pushActivation (fun o ho => h.nesting.closure hq ho) (fun id cell d hfind hreach => ?_)
    fun d hin => ?_
  · obtain ⟨hid, hcell, rfl⟩ := hholder hfind hreach
    exact ⟨hid, hcell, hlt⟩
  · have hown : .context ∈ f.owned := by
      rw [(h.closure hq).owned, ownedBy, mem_eraseDups, hparams]
      exact mem_append_left _ (mem_append_left _ (by simp [entryParams]))
    rw [inside_of_owned hnested (w.activations.get?_push_self _) hown] at hin
    obtain ⟨-, -, rfl⟩ := hholder hin rfl
    exact hsupplies.mono (fun _ => Subset.refl _) fun b => h.blockSeen_activation hq ho b

/-- The activation of a call, before the function has done anything. -/
theorem running_activation (h : w.Supplied) (hq : w.functions.get? q = some (.closure f)) {o}
    (ho : f.outer = some o) {context?}
    (hcontext : ∀ c, Inside c (w.activations.push (f.activation args)) w.activations.size ↔
      context? = some c) :
    (w.activate f args).Running
      w.activations.size f.owned (fun b => (blockSeen w.activations o b).isSome) context? where
  activation := ⟨_, w.activations.get?_push_self _, rfl⟩
  sees := by
    funext b
    rw [h.blockSeen_activation hq ho]
  inside := hcontext
  parent {a t c} ha ht := by
    cases (w.activations.get?_push_self (f.activation args)).symm.trans ha
    have hmem : (Ident.parentTemplate, _) ∈ f.params.zip args ++ f.captured :=
      mem_of_find?_ofList ht
    have hparam : .parentTemplate ∈ f.params ++ f.captured.map (·.1) := by
      rcases mem_append.1 hmem with hmem | hmem
      · exact mem_append_left _ (of_mem_zip hmem).1
      · exact mem_append_right _ (mem_map_of_mem hmem)
    rcases (h.closure hq).params with ⟨hparams, hcaptured⟩ | hordinary
    · rw [hparams, hcaptured] at hparam
      simp [entryParams] at hparam
    · exact ((hordinary _ hparam).2.1 rfl).elim

/-- Everything the engine does keeps states supplied, and a lookup of blocks that would come away
empty plays no part in it. -/
theorem kept : Kept (Always Supplied) Enterable apartFromBlocks Call.Tracks where
  toClosed := closed
  load name eager := Always.alike_iff.2 fun w hw =>
    hw.of_attempted (attempted_getTemplate hw.named name eager)
  closure {call call'} hc hg limit q f args := by
    refine coupled_callClosure closed (fun _ _ h => h.1) limit f args ?_
    rintro _ w ⟨⟨rfl, hw⟩, hq, hargs⟩
    have hsupplied : (w.activate f args).Supplied := by
      rcases hargs with ⟨vs, rfl⟩ | ⟨env, c, frame, rfl, hentry⟩
      · exact hw.activate hq vs
      · exact hw.activateEntry hq env frame hentry
    obtain ⟨o, -, ho, hbody⟩ := (hw.closure hq).body
    obtain ⟨context?, hcontext⟩ :=
      exists_context? (w.activations.push (f.activation args)) w.activations.size
    exact (Busy.passes hg hc hbody _ _ ⟨rfl, hsupplied, hw.running_activation hq ho hcontext⟩).mono
      (fun _ _ _ _ h => ⟨h.1, h.2.1⟩) fun _ _ h => h

end World.Supplied

/-- Where blocks are supplied, an alarm at lookups that come away empty is not noticed. -/
theorem lookupAlarm_unnoticed (alarm : Eval Cell) :
    (lookupAlarm alarm).Unnoticed (Always Supplied) Enterable apartFromBlocks where
  enter h := h
  method {call call' self field args} hmethod h := by
    intro w w' hw
    have hlacks : w'.lacks self field args = false := by
      unfold lacks
      split
      · exact ((hmethod _ rfl).2.1 rfl).elim
      · exact ((hmethod _ rfl).2.2 rfl).elim
      · rfl
    show Agree _ _ _ ((get >>= fun u : World => if u.lacks self field args then alarm
      else callMethod call' self field args).outcome w')
    rw [outcome_get_bind, if_neg (by simp [hlacks])]
    exact h w w' hw

/-- The engine in a supplied state does what it does with an alarm at lookups that come away
empty. -/
theorem Engine.callsAlike_lookupAlarm (alarm : Eval Cell) (fuel : Nat) :
    CallsAlike (Always Supplied) Enterable apartFromBlocks (call fuel)
      (intercepted (lookupAlarm alarm) fuel) :=
  Supplied.kept.callsAlike_intercepted (lookupAlarm_unnoticed alarm) (tracks_intercepted alarm) fuel

end Stencil
