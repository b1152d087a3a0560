import Stencil.Proofs.Activation

/-!
# Renders inside renders

A traced engine (`Engine.traced`) makes the same calls as the engine and knows, at each of them,
which renders are active. It lets a watcher see every call. What a watcher sees is compared with
what the engine does by `Shadows`: the two computations have the same outcome, unless the engine
ends with a fault of a given kind.
-/

namespace Stencil

open Script Engine Eval Heap Store

variable {α β : Type}

/-! ## Active renders -/

/-- The active renders at some point, the innermost first, each with the name of its template. -/
abbrev Active := List (Option String)

namespace Active

/-- The name that the innermost render goes by: that of the innermost render with a name that is not
empty. -/
def effectiveName? (active : Active) : Option String :=
  active.findSome? RenderState.properName?

/-- The renders that go by some name, the outermost first, with the number of renders around
each. -/
def stack : Active → TemplateStack
  | [] => []
  | name? :: outer =>
    stack outer ++
      ((effectiveName? (name? :: outer)).map fun name => (name, (outer.length : Int))).toList

/-- The active renders while a value is called: a method of a template starts a render of it. -/
def whileCalling (active : Active) (w : World) : Value → Active
  | .bound (.template r) _ => (w.template r).name? :: active
  | _ => active

/-- The active renders while a method of the machinery is called. -/
def whileAsking (active : Active) (w : World) : Cell → Active
  | .value (.template r) => (w.template r).name? :: active
  | _ => active

end Active

/-- The state fits the active renders: the depth is the number of renders around the innermost one
and within the limit, and the stack lists those renders. -/
def Fits (limit : Int) : Active → World → Prop
  | [], w => w.state? = none ∧ w.env.maxDepth = limit
  | name? :: outer, w => ∃ s, w.state? = some s ∧ s.depth = outer.length ∧ s.depth ≤ max 0 limit ∧
    s.maxDepth = limit ∧ s.stack = Active.stack outer ∧
    RenderState.properName? s.template? = Active.effectiveName? (name? :: outer)

/-! ## The traced engine -/

/-- What happens around each call of a traced engine. -/
abbrev Watcher := Active → (α : Type) → Eval α → Eval α

/-- Calls nested at most as deep as the fuel says, each of them under the eyes of a watcher. -/
def Engine.traced (watcher : Watcher) : Nat → Active → Call
  | 0, _ => call 0
  | fuel + 1, active =>
    ⟨fun f args => watcher active _ do
        apply (traced watcher fuel (active.whileCalling (← get) f)) fuel f args,
      fun entry env context frame => watcher active _
        (applyEntry (traced watcher fuel active) fuel entry env context frame),
      fun self field args => watcher active _ do
        callMethod (traced watcher fuel (active.whileAsking (← get) self)) self field args⟩

/-- Why a computation halted, if it did. -/
def Except.halt? : Except Halt α → Option Halt
  | .ok _ => none
  | .error h => some h

/-- A computation that raises an alarm if its beginning, the way it ends and the state it leaves do
not pass a test. -/
noncomputable def Eval.guarded (passes : World → Option Halt → World → Prop) (alarm : Eval α)
    (x : Eval α) : Eval α :=
  ExceptT.mk fun w =>
    open Classical in
    if passes w (Except.halt? (x.outcome w).1) (x.outcome w).2 then x.outcome w
    else alarm.outcome (x.outcome w).2

variable {x : Eval α} {name? : Option String} {call call' : Call} {r : Ref}

theorem Eval.outcome_guarded {passes w}
    (h : passes w (Except.halt? (x.outcome w).1) (x.outcome w).2) (alarm : Eval α) :
    (guarded passes alarm x).outcome w = x.outcome w :=
  if_pos h

/-! ## What holds throughout a render -/

/-- Which context may publish which name while it exports the given ones. -/
abbrev Allowance := Ref → List String → String → Prop

/-- The names that a context exports before and after some publications, each of them allowed. -/
inductive Publishes (allowed : Allowance) (c : Ref) : List String → List String → Prop where
  | refl (names : List String) : Publishes allowed c names names
  | step {names names' x} (h : Publishes allowed c names names') (hx : x ∉ names')
    (hallowed : allowed c names' x) : Publishes allowed c names (names' ++ [x])

namespace Publishes

variable {allowed : Allowance} {c : Ref} {names names' : List String} {x : String}

theorem trans {more} (h : Publishes allowed c names names') (h' : Publishes allowed c names' more) :
    Publishes allowed c names more := by
  induction h' with
  | refl => exact h
  | step _ hx hallowed ih => exact .step ih hx hallowed

theorem mono {allowed'} (hmore : ∀ names x, allowed c names x → allowed' c names x)
    (h : Publishes allowed c names names') : Publishes allowed' c names names' := by
  induction h with
  | refl => exact .refl _
  | step _ hx hallowed ih => exact .step ih hx (hmore _ _ hallowed)

theorem isPrefix (h : Publishes allowed c names names') : names <+: names' := by
  induction h with
  | refl => exact List.prefix_refl _
  | step _ _ _ ih => exact ih.trans <| List.prefix_append _ _

theorem nodup (h : Publishes allowed c names names') (hnames : names.Nodup) : names'.Nodup := by
  induction h with
  | refl => exact hnames
  | step _ hx _ ih =>
    rw [List.nodup_append]
    exact ⟨ih, by simp, fun y hy z hz => by rintro rfl; exact hx (List.mem_singleton.1 hz ▸ hy)⟩

/-- Each name was allowed after those before it. -/
theorem allowed_of_isPrefix {before} (h : Publishes allowed c [] names)
    (hx : before ++ [x] <+: names) : allowed c before x := by
  induction h with
  | refl => simp at hx
  | step _ _ hallowed ih =>
    rcases List.prefix_concat_iff.1 hx with heq | hx
    · obtain ⟨rfl, hlast⟩ := List.append_inj' heq rfl
      exact (List.cons.inj hlast).1 ▸ hallowed
    · exact ih hx

end Publishes

/-- What a computation may make of a state: the render state and the environment are the same, no
context has disappeared, and contexts have published further names as they may. -/
structure World.Onward (w u : World) (allowed : Allowance := fun _ _ _ => True) : Prop where
  state : u.state? = w.state?
  env : u.env = w.env
  size : w.contexts.size ≤ u.contexts.size
  exported (c : Ref) : Publishes allowed c (w.context c).exported (u.context c).exported

/-- A new context exports nothing. -/
theorem Context.exported_ofBlocks (c : Context) (blocks : List (String × Value)) :
    (blocks.foldl (fun c b => c.addBlock b.1 b.2) c).exported = c.exported := by
  induction blocks generalizing c with
  | nil => rfl
  | cons b blocks ih => exact ih _

namespace World.Onward

variable {w u v : World} {allowed : Allowance}

theorem trans (h : w.Onward u allowed) (h' : u.Onward v allowed) : w.Onward v allowed :=
  ⟨h'.state.trans h.state, h'.env.trans h.env, Nat.le_trans h.size h'.size,
    fun c => (h.exported c).trans (h'.exported c)⟩

/-- Where nothing is published, anything may be. -/
theorem mono (h : w.Onward u fun _ _ _ => False) : w.Onward u allowed :=
  ⟨h.state, h.env, h.size, fun c => (h.exported c).mono fun _ _ => False.elim⟩

theorem of_contexts (hstate : u.state? = w.state?) (henv : u.env = w.env)
    (hcontexts : u.contexts = w.contexts) : w.Onward u allowed := by
  refine ⟨hstate, henv, Nat.le_of_eq (congrArg Store.size hcontexts.symm), fun c => ?_⟩
  rw [context, context, hcontexts]
  exact .refl _

/-- A new context that exports nothing. -/
theorem pushContext (w : World) {new : Context} (hnew : new.exported = []) :
    w.Onward { w with contexts := w.contexts.push new } allowed := by
  refine ⟨rfl, rfl, by simp, fun c => ?_⟩
  rw [w.context_push]
  split
  · next hc =>
    rw [context, hc, get?_eq_none (Nat.le_refl _), hnew]
    exact .refl _
  · exact .refl _

theorem setContext (w : World) (r : Ref) {new} (hnew : r < w.contexts.size →
      Publishes allowed r (w.context r).exported new.exported) :
    w.Onward (w.setContext r new) allowed := by
  refine ⟨rfl, rfl, by simp, fun c => ?_⟩
  rw [w.context_setContext]
  split
  · next hr => exact hr.1 ▸ hnew hr.2
  · exact .refl _

end World.Onward

/-- What fits the active renders does not depend on contexts. -/
theorem Fits.onward {limit active w u} (hw : Fits limit active w) (h : w.Onward u) :
    Fits limit active u := by
  cases active with
  | nil => exact ⟨h.state.trans hw.1, (congrArg Environment.maxDepth h.env).trans hw.2⟩
  | cons name? outer =>
    obtain ⟨s, hs, hrest⟩ := hw
    exact ⟨s, h.state.trans hs, hrest⟩

/-- A computation that leaves the render state and the environment as they are, and publishes
nothing. -/
def Eval.Keeps (x : Eval α) : Prop :=
  ∀ w : World, w.Onward (x.outcome w).2 fun _ _ _ => False

namespace Eval.Keeps

theorem pure (a : α) : (Pure.pure a : Eval α).Keeps := fun _ => .of_contexts rfl rfl rfl

theorem fail (f : Fault) : (fail f : Eval α).Keeps := fun _ => .of_contexts rfl rfl rfl

theorem throw (h : Halt) : (MonadExcept.throw h : Eval α).Keeps := fun _ => .of_contexts rfl rfl rfl

theorem get : (MonadState.get : Eval World).Keeps := fun _ => .of_contexts rfl rfl rfl

theorem lift (x : Operation α) : (liftM x : Eval α).Keeps := fun _ => .of_contexts rfl rfl rfl

theorem ofExcept (e : Except Fault α) : (ofExcept e : Eval α).Keeps := by
  cases e with
  | ok a => exact pure a
  | error f => exact fail f

theorem bind {x} {f : α → Eval β} (hx : x.Keeps) (hf : ∀ a, (f a).Keeps) : (x >>= f).Keeps := by
  intro w
  have hw := hx w
  rcases h : x.outcome w with ⟨e | a, u⟩ <;> rw [h] at hw
  · rw [outcome_bind_of_error h]
    exact hw
  · rw [outcome_bind_of_ok h]
    exact hw.trans (hf a u)

theorem read (r : Ref) (id : Ident) : (read r id).Keeps := by
  intro w
  rw [snd_outcome_read]
  exact .of_contexts rfl rfl rfl

theorem write (r : Ref) (id : Ident) (c : Cell) : (write r id c).Keeps :=
  fun _ => .of_contexts rfl rfl rfl

theorem fieldOf (c : Cell) (field : Attr) : (fieldOf c field).Keeps := by
  unfold Script.fieldOf
  split
  · exact pure _
  · exact get.bind fun w => pure _
  · split
    · exact pure _
    · exact fail _

theorem assignTarget (r : Ref) (target : Target) (v : Value) : (assignTarget r target v).Keeps := by
  unfold Script.assignTarget
  split
  · exact write r _ _
  · exact (write r _ _).bind fun _ => write r _ _
  · exact fail _

theorem setInFrame (r : Ref) (name : String) (v : Value) : (setInFrame r name v).Keeps := by
  have hbind (part : String) (v : Value) : (bindVariable r part v).Keeps := fun _ =>
    .of_contexts rfl rfl rfl
  unfold Eval.setInFrame
  split
  · exact pure ()
  · exact hbind _ v
  · refine get.bind fun w => (lift _).bind fun (inner, isNew) => ?_
    cases isNew with
    | true => exact (hbind _ _).bind fun _ => lift _
    | false => exact lift _

theorem loadUnit (tree : Node) (name? file? : Option String) :
    (loadUnit tree name? file?).Keeps := by
  unfold Eval.loadUnit
  rcases ({} : Compiler).compile tree false name? file? with ⟨result, c⟩
  refine (ofExcept result).bind fun m => ?_
  have hload : (loadModule m).Keeps := fun _ => .of_contexts rfl rfl rfl
  exact hload.bind fun functions => (ofExcept _).bind fun unit => (lift _).bind fun _ => pure unit

theorem getTemplate (name : Value) (eager : Bool) : (getTemplate name eager).Keeps := by
  refine get.bind fun w => ?_
  split
  · exact (lift _).bind fun _ => fail _
  · refine (lift _).bind fun (tree, file?) => (lift _).bind fun shown => (lift _).bind fun _ => ?_
    exact (loadUnit tree _ _).bind fun unit => fun _ => .of_contexts rfl rfl rfl

theorem callHelper (field : Attr) (args : List Value) : (callHelper field args).Keeps := by
  refine (lift _).bind fun _ => ?_
  split
  · exact lift _
  · exact lift _
  · exact (lift _).bind fun b => pure _
  · exact lift _
  · exact (lift _).bind fun name => (lift _).bind fun shown => fail _
  · exact get.bind fun w => (lift _).bind fun _ => fun _ => .of_contexts rfl rfl rfl
  · exact lift _
  · exact lift _
  · exact fail _

theorem callContext (r : Ref) {field : Attr} (hfield : field ≠ .addExport) (args : List Value) :
    (callContext r field args).Keeps := by
  have hmodify {f : Context → Context} (hf : ∀ c, (f c).exported = c.exported) :
      (modifyContext r f).Keeps := fun w => .setContext w r fun _ => hf _ ▸ .refl _
  unfold Engine.callContext
  split
  · exact (hmodify (f := fun c => { c with vars := c.vars.insert _ _ }) fun _ => rfl).bind
      fun _ => pure _
  · exact absurd rfl hfield
  · exact (hmodify (f := (·.addBlock _ _)) fun _ => rfl).bind fun _ => pure _
  · exact lift _
  · exact get.bind fun w => lift _
  · exact fail _

end Eval.Keeps

/-! ## A computation and its shadow -/

/-- Which states fit the active renders, and which ends of a computation, with a halt or without,
excuse that it is not followed to the end. What excuses a render excuses the renders around it. -/
structure Regime where
  allowed : Allowance := fun _ _ _ => True
  fits : Active → World → Prop
  excused : Active → Option Halt → World → Prop
  fits_onward {active w u} : fits active w → w.Onward u allowed → fits active u
  excused_onward {active halt? w u} : excused active none w → w.Onward u allowed →
    excused active halt? u
  opening {active w name? s} : fits active w →
    RenderState.opening w.state? w.env.maxDepth name? = .ok s →
    fits (name? :: active) { w with state? := some s }
  settles {active halt? u name?} (state? : Option RenderState) :
    fits (name? :: active) u → excused (name? :: active) halt? u →
    excused active (halt?.map (·.settledBy name? u.stack)) { u with state? }

/-- In a state that fits the active renders, `y` does what `x` does, unless the end of `x` excuses
it. -/
def ShadowsAt (D : Regime) (active : Active) (w : World) (x y : Eval α) : Prop :=
  D.fits active w → w.Onward (x.outcome w).2 D.allowed ∧
    (y.outcome w = x.outcome w ∨ D.excused active (Except.halt? (x.outcome w).1) (x.outcome w).2)

/-- One computation shadows another one wherever they start. -/
def Shadows (D : Regime) (active : Active) (x y : Eval α) : Prop :=
  ∀ w, ShadowsAt D active w x y

/-- Calls that shadow calls. -/
structure CallsShadow (D : Regime) (active : Active) (call call' : Call) : Prop where
  value (f : Value) (args : List Value) : Shadows D active (call.value f args) (call'.value f args)
  enter (e env : Value) (c f : Ref) :
    Shadows D active (call.enter e env c f) (call'.enter e env c f)
  method (self : Cell) (field : Attr) (args : List Cell) :
    Shadows D active (call.method self field args) (call'.method self field args)

variable {D : Regime} {limit : Int} {active : Active} {w : World}

theorem ShadowsAt.bind {y} {f g : α → Eval β} (hx : ShadowsAt D active w x y)
    (hf : ∀ a u, x.outcome w = (.ok a, u) → ShadowsAt D active u (f a) (g a)) :
    ShadowsAt D active w (x >>= f) (y >>= g) := by
  intro hw
  obtain ⟨hkeep, hsame⟩ := hx hw
  rcases h : x.outcome w with ⟨e | a, u⟩
  · rw [outcome_bind_of_error h]
    rw [h] at hkeep hsame
    exact ⟨hkeep, hsame.imp (fun hsame => outcome_bind_of_error hsame g) id⟩
  · rw [outcome_bind_of_ok h]
    rw [h] at hkeep hsame
    obtain ⟨hkeep', hsame'⟩ := hf a u h (D.fits_onward hw hkeep)
    refine ⟨hkeep.trans hkeep', ?_⟩
    rcases hsame with hsame | hexcused
    · rwa [outcome_bind_of_ok hsame]
    · exact .inr (D.excused_onward hexcused hkeep')

theorem ShadowsAt.get_bind {f g : World → Eval α} (h : ShadowsAt D active w (f w) (g w)) :
    ShadowsAt D active w (get >>= f) (get >>= g) := by
  unfold ShadowsAt
  rw [outcome_get_bind, outcome_get_bind]
  exact h

namespace Shadows

variable {x : Eval α} {round round' : Value → Eval (Option Cell)}

/-- Whatever keeps the setting is its own shadow. -/
theorem of_keeps (hx : x.Keeps) : Shadows D active x x :=
  fun w _ => ⟨(hx w).mono, .inl rfl⟩

theorem bind {y} {f g : α → Eval β} (hx : Shadows D active x y)
    (hf : ∀ a, Shadows D active (f a) (g a)) : Shadows D active (x >>= f) (y >>= g) :=
  fun w => (hx w).bind fun a u _ => hf a u

theorem pure (a : α) : Shadows D active (Pure.pure a) (Pure.pure a) :=
  of_keeps (.pure a)

theorem fail (f : Fault) : Shadows D active (fail f : Eval α) (fail f) :=
  of_keeps (.fail f)

theorem lift (x : Operation α) : Shadows D active (liftM x : Eval α) (liftM x) :=
  of_keeps (.lift x)

theorem get_bind {f g : World → Eval α} (hf : ∀ w, Shadows D active (f w) (g w)) :
    Shadows D active (get >>= f) (get >>= g) :=
  (of_keeps .get).bind hf

theorem ite {p : Prop} [Decidable p] {y x' y'} (hx : Shadows D active x y)
    (hy : Shadows D active x' y') :
    Shadows D active (if p then x else x') (if p then y else y') := by
  split
  · exact hx
  · exact hy

/-! ## Scripts -/

section

variable {call call' : Call} (r : Ref)

theorem callCell (hc : CallsShadow D active call call') (callee : Cell) (args : List Cell) :
    Shadows D active (callCell call callee args) (callCell call' callee args) := by
  unfold Script.callCell
  split
  · split
    · exact (hc.enter _ _ _ _).bind fun v => pure _
    · exact (lift _).bind fun vs => (hc.value _ _).bind fun v => pure _
  · exact hc.method _ _ _
  · exact (lift _).bind fun vs => (lift _).bind fun v => pure _
  · exact fail _

mutual

theorem eval (hc : CallsShadow D active call call') : ∀ e : Expr,
    Shadows D active (eval call r e) (eval call' r e)
  | .const _ => pure _
  | .tree _ => fail _
  | .name id => of_keeps (.read r id)
  | .attr object field => (eval hc object).bind fun c => of_keeps (.fieldOf c field)
  | .subscript object index =>
    (eval hc object).bind fun _ => (lift _).bind fun _ => (eval hc index).bind fun _ =>
      (lift _).bind fun _ => (lift _).bind fun _ => pure _
  | .call callee args =>
    (eval hc callee).bind fun f => (evalAll hc args).bind fun cs => callCell hc f cs
  | .list items =>
    (evalAll hc items).bind fun _ => (lift _).bind fun _ => (lift _).bind fun _ => pure _
  | .tuple items =>
    (evalAll hc items).bind fun _ => (lift _).bind fun _ => (lift _).bind fun _ => pure _
  | .dict entries =>
    (evalEntries hc entries).bind fun _ => get_bind fun _ => (lift _).bind fun _ => pure _
  | .boolean .or left right =>
    (eval hc left).bind fun _ => (lift _).bind fun _ => get_bind fun _ =>
      ite (pure _) (eval hc right)
  | .boolean .and left right =>
    (eval hc left).bind fun _ => (lift _).bind fun _ => get_bind fun _ =>
      ite (eval hc right) (pure _)
  | .binary _ left right =>
    (eval hc left).bind fun _ => (lift _).bind fun _ => (eval hc right).bind fun _ =>
      (lift _).bind fun _ => (lift _).bind fun _ => pure _
  | .unary _ operand =>
    (eval hc operand).bind fun _ => (lift _).bind fun _ => (lift _).bind fun _ => pure _
  | .compare first rest =>
    (eval hc first).bind fun _ => (lift _).bind fun _ => (evalChain hc _ rest).bind fun _ =>
      pure _
  | .conditional test body otherwise =>
    (eval hc test).bind fun _ => (lift _).bind fun _ => get_bind fun _ =>
      ite (eval hc body) (eval hc otherwise)
  | .bind id value =>
    (eval hc value).bind fun c => (of_keeps (.write r id c)).bind fun _ => pure _

theorem evalAll (hc : CallsShadow D active call call') : ∀ es : List Expr,
    Shadows D active (evalAll call r es) (evalAll call' r es)
  | [] => pure _
  | e :: rest => (eval hc e).bind fun _ => (evalAll hc rest).bind fun _ => pure _

theorem evalEntries (hc : CallsShadow D active call call') : ∀ es : List (Expr × Expr),
    Shadows D active (evalEntries call r es) (evalEntries call' r es)
  | [] => pure _
  | (key, e) :: rest =>
    (eval hc key).bind fun _ => (lift _).bind fun _ => (eval hc e).bind fun _ =>
      (lift _).bind fun _ => (evalEntries hc rest).bind fun _ => pure _

theorem evalChain (hc : CallsShadow D active call call') (left : Value) :
    ∀ es : List (CompareOp × Expr),
      Shadows D active (evalChain call r left es) (evalChain call' r left es)
  | [] => pure _
  | (_, e) :: rest =>
    (eval hc e).bind fun _ => (lift _).bind fun _ => (lift _).bind fun _ =>
      ite (ite (pure _) (evalChain hc _ rest)) (pure _)

end

end

theorem roundsOver (hround : ∀ v, Shadows D active (round v) (round' v)) (vs : List Value) :
    Shadows D active (roundsOver round vs) (roundsOver round' vs) := by
  induction vs with
  | nil => exact pure _
  | cons v rest ih =>
    refine (hround v).bind fun result? => ?_
    cases result? with
    | none => exact ih
    | some result => exact pure _

theorem roundsFrom (hround : ∀ v, Shadows D active (round v) (round' v)) (fuel : Nat) :
    ∀ it, Shadows D active (roundsFrom round fuel it) (roundsFrom round' fuel it) := by
  induction fuel with
  | zero => exact fun _ => of_keeps (.throw _)
  | succ fuel ih =>
    intro it
    refine (lift _).bind fun next? => ?_
    cases next? with
    | none => exact pure _
    | some next =>
      refine (hround next.1).bind fun result? => ?_
      cases result? with
      | none => exact ih next.2
      | some result => exact pure _

theorem runLoop (rounds : Nat) (source : Value)
    (hround : ∀ v, Shadows D active (round v) (round' v)) :
    Shadows D active (runLoop rounds source round) (runLoop rounds source round') := by
  refine get_bind fun w => ?_
  split
  · exact fail _
  · exact roundsOver hround _
  · exact roundsFrom hround _ _

section

variable {call call' : Call} (rounds : Nat) (r : Ref)

theorem captureAll (hc : CallsShadow D active call call') (captured : List (Ident × Expr)) :
    Shadows D active (captureAll call r captured) (captureAll call' r captured) := by
  induction captured with
  | nil => exact pure _
  | cons c rest ih => exact (eval r hc c.2).bind fun _ => ih.bind fun _ => pure _

mutual

theorem exec (hc : CallsShadow D active call call') : ∀ s : Stmt,
    Shadows D active (exec call rounds r s) (exec call' rounds r s)
  | .expr e => (eval r hc e).bind fun _ => pure _
  | .assign id e => (eval r hc e).bind fun c => (of_keeps (.write r id c)).bind fun _ => pure _
  | .increment id e =>
    (of_keeps (.read r id)).bind fun _ => (lift _).bind fun _ => (eval r hc e).bind fun _ =>
      (lift _).bind fun _ => (lift _).bind fun v =>
        (of_keeps (.write r id (.value v))).bind fun _ => pure _
  | .ret e => (eval r hc e).bind fun _ => pure _
  | .branch test body otherwise =>
    (eval r hc test).bind fun _ => (lift _).bind fun _ => get_bind fun _ =>
      ite (execAll hc body) (execAll hc otherwise)
  | .loop target source body =>
    (eval r hc source).bind fun _ => (lift _).bind fun source =>
      runLoop rounds source fun v =>
        (of_keeps (.assignTarget r target v)).bind fun _ => execAll hc body
  | .define name _ captured _ =>
    (captureAll r hc captured).bind fun _ => get_bind fun _ =>
      (of_keeps fun _ => .of_contexts rfl rfl rfl).bind fun f =>
        (of_keeps (.write r name (.value f))).bind fun _ => pure _
  | .pass => pure _

theorem execAll (hc : CallsShadow D active call call') : ∀ body : List Stmt,
    Shadows D active (execAll call rounds r body) (execAll call' rounds r body)
  | [] => pure _
  | s :: rest => by
    refine (exec hc s).bind fun result? => ?_
    cases result? with
    | none => exact execAll hc rest
    | some result => exact pure _

end

end

/-! ## Calls inside a render -/

theorem newFrame (f : Frame) : Shadows D active (newFrame f) (newFrame f) :=
  of_keeps fun _ => .of_contexts rfl rfl rfl

variable {call call' : Call} (hc : CallsShadow D active call call')

include hc

theorem callClosure (rounds : Nat) (c : Closure) (args : List Cell) :
    Shadows D active (callClosure call rounds c args) (callClosure call' rounds c args) := by
  refine (lift _).bind fun _ => ?_
  refine (of_keeps fun _ => .of_contexts rfl rfl rfl).bind fun r => ?_
  exact (execAll rounds r hc c.body).bind fun _ => lift _

theorem callFunction (rounds : Nat) (r : Ref) (args : List Cell) :
    Shadows D active (callFunction call rounds r args) (callFunction call' rounds r args) := by
  refine get_bind fun w => ?_
  split
  · exact callClosure hc rounds _ args
  · rename_i env context name next? _
    cases next? with
    | none => exact (lift _).bind fun _ => fail _
    | some block =>
      exact (lift _).bind fun _ => (newFrame _).bind fun f => hc.enter block env context f
  · exact fail _

theorem callMacro (r : Ref) (args : List Value) :
    Shadows D active (callMacro call r args) (callMacro call' r args) := by
  refine (lift _).bind fun _ => get_bind fun w => get_bind fun u => ?_
  have body (kwargs : Value) : Shadows D active (do
        let vs ← bindParams (args.headD (.ofItems [])) kwargs 0 (w.macroAt r).params
        call.value (w.macroAt r).function vs)
      (do
        let vs ← bindParams (args.headD (.ofItems [])) kwargs 0 (w.macroAt r).params
        call'.value (w.macroAt r).function vs) :=
    (lift _).bind fun vs => hc.value (w.macroAt r).function vs
  exact ite ((pure _).bind body) ((lift _).bind body)

theorem filter (b : BuiltinFilter) (args : List Value) :
    Shadows D active (b.apply call args) (b.apply call' args) := by
  refine (lift _).bind fun _ => ?_
  cases b with
  | join =>
    show Shadows _ _ (BuiltinFilter.joinElements call _ _) (BuiltinFilter.joinElements call' _ _)
    unfold BuiltinFilter.joinElements
    split
    · exact pure _
    · refine (lift _).bind fun joiner? => ?_
      cases joiner? with
      | some joiner => exact (lift _).bind fun texts => hc.value joiner [texts]
      | none =>
        dsimp only
        split <;> exact fail _
  | replace => exact (lift _).bind fun text => lift _
  | int =>
    refine (of_keeps (.ofExcept _)).bind fun n? => ?_
    cases n? with
    | none => exact pure _
    | some n =>
      dsimp only
      split
      · exact pure _
      · exact lift _
  | _ => exact lift _

theorem applyEntry (rounds : Nat) (e env : Value) (c f : Ref) :
    Shadows D active (applyEntry call rounds e env c f) (applyEntry call' rounds e env c f) := by
  unfold Engine.applyEntry
  split
  · exact callFunction hc rounds _ _
  · refine ite ?_ (lift _)
    refine (of_keeps fun _ => .of_contexts rfl rfl rfl).bind fun next =>
      (hc.value next []).bind fun inner => ?_
    exact (lift _).bind fun _ => lift _
  · exact fail _

theorem apply (rounds : Nat) {f} (hf : ∀ r field, f ≠ .bound (.template r) field)
    (args : List Value) : Shadows D active (apply call rounds f args)
      (apply call' rounds f args) := by
  unfold Engine.apply
  split
  · exact callFunction hc rounds _ _
  · exact callMacro hc _ _
  · exact lift _
  · exact filter hc _ _
  · exact lift _
  · exact lift _
  · exact absurd rfl (hf _ _)
  · exact fail _

omit hc in
/-- The methods of everything but templates make no calls. -/
theorem callMethod {self : Cell} (hself : ∀ r, self ≠ .value (.template r)) {field : Attr}
    (hfield : ∀ r, self = .context r → field ≠ .addExport) (args : List Cell) :
    Shadows D active (callMethod call self field args) (callMethod call' self field args) := by
  unfold Engine.callMethod
  split
  · refine bind (get_bind fun w => ?_) fun v => pure _
    split
    · split <;> exact pure _
    · exact pure _
  · exact (lift _).bind fun vs => (of_keeps (.callHelper _ _)).bind fun v => pure _
  · exact (of_keeps fun _ => .of_contexts rfl rfl rfl).bind fun v => pure _
  · exact (lift _).bind fun vs => (of_keeps (.callContext _ (hfield _ rfl) _)).bind fun v => pure _
  · exact (of_keeps fun _ => .of_contexts rfl rfl rfl).bind fun f => pure _
  · exact get_bind fun w => pure _
  · exact (of_keeps (.setInFrame _ _ _)).bind fun _ => pure _
  · exact (lift _).bind fun vs => (of_keeps (.getTemplate _ _)).bind fun r => pure _
  · exact (lift _).bind fun f => pure _
  · exact absurd rfl (hself _)
  · exact absurd rfl (hself _)
  · exact (lift _).bind fun v => pure _
  · exact (lift _).bind fun v => pure _
  · exact fail _

end Shadows

/-! ## Renders -/

theorem Fits.stack_eq {outer} (hw : Fits limit (name? :: outer) w) :
    w.stack = Active.stack outer := by
  obtain ⟨s, hs, _, _, _, hstack, _⟩ := hw
  rw [World.stack, hs]
  exact hstack

theorem RenderState.properName?_orElse (name? other? : Option String) :
    properName? (properName? name? <|> other?) = (properName? name? <|> properName? other?) := by
  have hidem : properName? (properName? name?) = properName? name? := by
    unfold properName?
    rw [Option.filter_filter]
    simp
  cases h : properName? name? with
  | none => rfl
  | some name =>
    rw [h] at hidem
    exact hidem

theorem Active.effectiveName?_cons (name? : Option String) (outer : Active) :
    effectiveName? (name? :: outer) = (RenderState.properName? name? <|> effectiveName? outer) := by
  unfold effectiveName?
  rw [List.findSome?_cons]
  cases RenderState.properName? name? <;> rfl

theorem RenderState.opening_some {s inner limit} (h : opening (some s) limit name? = .ok inner) :
    s.depth < s.maxDepth ∧ inner = s.child name? := by
  unfold opening depthReport? at h
  by_cases hfull : s.depth ≥ s.maxDepth
  · simp [hfull] at h
  · simp only [hfull, if_false] at h
    cases h
    exact ⟨Int.not_le.1 hfull, rfl⟩

/-- The state that a render opens fits one more render. -/
theorem Fits.opening {s} (hw : Fits limit active w)
    (h : RenderState.opening w.state? w.env.maxDepth name? = .ok s) :
    Fits limit (name? :: active) { w with state? := some s } := by
  cases active with
  | nil =>
    obtain ⟨hstate, hlimit⟩ := hw
    rw [hstate, hlimit] at h
    cases h
    refine ⟨_, rfl, rfl, Int.le_max_left 0 limit, rfl, rfl, ?_⟩
    rw [Active.effectiveName?_cons]
    cases RenderState.properName? name? <;> rfl
  | cons outerName? outer =>
    obtain ⟨s', hs', hdepth, hle, hmax, hstack, hname⟩ := hw
    rw [hs'] at h
    obtain ⟨hroom, rfl⟩ := RenderState.opening_some h
    refine ⟨_, rfl, ?_, ?_, hmax, ?_, ?_⟩
    · simp [RenderState.child, hdepth]
    · simp only [RenderState.child]
      omega
    · simp only [RenderState.child, Active.stack, hname, hstack, hdepth]
      cases Active.effectiveName? (outerName? :: outer) with
      | none => exact (List.append_nil _).symm
      | some name => rfl
    · rw [Active.effectiveName?_cons, ← hname]
      exact RenderState.properName?_orElse name? s'.template?

/-- What excuses a render excuses the renders around it. -/
def Settles (excused : Active → Fault → Prop) : Prop :=
  ∀ name? outer f, excused (name? :: outer) f →
    excused outer (f.settledBy name? (Active.stack outer))

/-- States must fit the active renders within a limit, and certain faults excuse. -/
abbrev Regime.ofFaults (limit : Int) (excused : Active → Fault → Prop) (h : Settles excused) :
    Regime where
  fits := Fits limit
  excused active halt? _ := ∃ f, halt? = some (.fault f) ∧ excused active f
  fits_onward := Fits.onward
  excused_onward := fun ⟨_, hf, _⟩ _ => by cases hf
  opening := Fits.opening
  settles _ hu := by
    rintro ⟨f, rfl, hf⟩
    rw [hu.stack_eq]
    exact ⟨_, rfl, h _ _ _ hf⟩

/-- A render shadows a render if the calls inside of it do. -/
theorem Shadows.runEntry {t} (hc : CallsShadow D (t.name? :: active) call call') (e : Value)
    (c f : Ref) :
    Shadows D active (runEntry call t e c f) (runEntry call' t e c f) := by
  intro w hw
  cases hopen : RenderState.opening w.state? w.env.maxDepth t.name? with
  | error r =>
    rw [outcome_runEntry_of_refused hopen, outcome_runEntry_of_refused hopen]
    exact ⟨.of_contexts rfl rfl rfl, .inl rfl⟩
  | ok s =>
    have hfits := D.opening hw hopen
    obtain ⟨hkeep, hsame⟩ := hc.enter e .environment c f _ hfits
    rcases hrun : (call.enter e .environment c f).outcome { w with state? := some s } with
      ⟨halt | v, u⟩ <;> rw [hrun] at hkeep hsame
    · rw [outcome_runEntry_of_error hopen hrun]
      exact ⟨⟨rfl, hkeep.env, hkeep.size, hkeep.exported⟩,
        hsame.imp (outcome_runEntry_of_error hopen)
        (D.settles w.state? (D.fits_onward hfits hkeep))⟩
    · rw [outcome_runEntry_of_ok hopen hrun]
      exact ⟨⟨rfl, hkeep.env, hkeep.size, hkeep.exported⟩, hsame.imp (outcome_runEntry_of_ok hopen)
        (D.settles w.state? (D.fits_onward hfits hkeep))⟩

/-- What a template can be asked for: a render, a render of one of its blocks, or the names that it
publishes. -/
inductive Request where
  | render (vars : List (String × Value)) (frame? : Option Ref)
  | renderBlock (block : String) (vars : List (String × Value))
  | getModule

/-- Meet a request. -/
def Request.run (call : Call) (r : Ref) : Request → Eval Value
  | .render vars frame? => Engine.render call r vars frame?
  | .renderBlock block vars => Engine.renderBlock call r block vars
  | .getModule => Engine.getModule call r

/-- A request shadows a request if the calls inside of the render do. -/
theorem ShadowsAt.request (hc : CallsShadow D ((w.template r).name? :: active) call call')
    (request : Request) :
    ShadowsAt D active w (request.run call r) (request.run call' r) := by
  have hcontext (vars : List (String × Value)) :
      Shadows D active (renderContext (w.template r) vars) (renderContext (w.template r) vars) :=
    .of_keeps fun w => .pushContext w (Context.exported_ofBlocks { vars := _ } _)
  have hrun (entry : Value) (context frame : Ref) := Shadows.runEntry hc entry context frame
  cases request with
  | render vars frame? =>
    refine ShadowsAt.get_bind (Shadows.bind (.lift _) (fun _ => ?_) w)
    exact (hcontext vars).bind fun context => (Shadows.newFrame _).bind fun frame =>
      hrun _ context frame
  | renderBlock block vars =>
    refine ShadowsAt.get_bind ?_
    dsimp only
    split
    · exact Shadows.fail _ w
    · refine Shadows.bind (.lift _) (fun _ => ?_) w
      exact (hcontext vars).bind fun context => (Shadows.newFrame _).bind fun frame =>
        hrun _ context frame
  | getModule =>
    refine ShadowsAt.get_bind (Shadows.bind (.lift _) (fun _ => ?_) w)
    exact (hcontext []).bind fun context => (Shadows.newFrame _).bind fun frame =>
      (hrun _ context frame).bind fun _ => .lift _

/-- A method of a template shadows itself if the calls inside of the render do. -/
theorem ShadowsAt.callTemplate (hc : CallsShadow D ((w.template r).name? :: active) call call')
    (field : Attr) (args : List Value) :
    ShadowsAt D active w (Engine.callTemplate call r field args)
      (Engine.callTemplate call' r field args) := by
  unfold Engine.callTemplate
  split
  · exact .request hc (.render [] none)
  · exact .get_bind (.request hc (.render _ none))
  · exact .request hc .getModule
  · exact Shadows.fail _ w

theorem ShadowsAt.callTemplateMethod
    (hc : CallsShadow D ((w.template r).name? :: active) call call')
    {self : Cell} (hself : self = .value (.template r)) (field : Attr) (args : List Cell) :
    ShadowsAt D active w (callMethod call self field args) (callMethod call' self field args) := by
  unfold Engine.callMethod
  split <;> cases hself
  · refine .get_bind (.bind ?_ fun v u _ => Shadows.pure _ u)
    exact .request hc (.render _ (some _))
  · refine .bind (Shadows.lift _ w) fun vs u hu => .bind ?_ fun v u _ => Shadows.pure _ u
    have htemplate : u.template r = w.template r := by
      rw [outcome_lift] at hu
      obtain rfl : _ = u := congrArg Prod.snd hu
      rfl
    refine .callTemplate ?_ field vs
    rw [htemplate]
    exact hc
  · exact Shadows.fail _ w

theorem ShadowsAt.apply {f} (hc : CallsShadow D (active.whileCalling w f) call call')
    (rounds : Nat) (args : List Value) :
    ShadowsAt D active w (apply call rounds f args) (apply call' rounds f args) := by
  by_cases hf : ∃ r field, f = .bound (.template r) field
  · obtain ⟨r, field, rfl⟩ := hf
    exact .callTemplate hc field args
  · have hactive : active.whileCalling w f = active := by
      unfold Active.whileCalling
      split
      · exact absurd ⟨_, _, rfl⟩ hf
      · rfl
    exact Shadows.apply (hactive ▸ hc) rounds (fun r field h => hf ⟨r, field, h⟩) args w

/-- A publication calls nothing, and publishes one name at most. -/
theorem ShadowsAt.addExport (c : Ref) (args : List Cell)
    (h : ∀ x,
      (((Engine.callMethod call (.context c) .addExport args).outcome w).2.context c).exported =
      (w.context c).exported ++ [x] → D.allowed c (w.context c).exported x) :
    ShadowsAt D active w (callMethod call (.context c) .addExport args)
      (callMethod call' (.context c) .addExport args) := by
  refine ShadowsAt.bind (Shadows.lift _ w) fun vs u hu => ?_
  by_cases hname : ∃ o x, vs = [.str (o := o) x]
  · obtain ⟨o, x, rfl⟩ := hname
    have hrun : ((Engine.callMethod call (.context c) .addExport args).outcome w).2 =
        u.setContext c ((u.context c).addExport x) :=
      congrArg Prod.snd (outcome_bind_of_ok hu _)
    have hcontext : u.context c = w.context c := by
      rw [outcome_lift] at hu
      obtain rfl : _ = u := congrArg Prod.snd hu
      rfl
    refine fun _ => ⟨.setContext u c fun hlt => ?_, .inl rfl⟩
    show Publishes _ _ _ ((u.context c).addExport x).exported
    by_cases hx : x ∈ (u.context c).exported
    · rw [Context.addExport, if_pos (List.contains_iff_mem.2 hx)]
      exact .refl _
    · have hnew : ((u.context c).addExport x).exported = (u.context c).exported ++ [x] := by
        rw [Context.addExport, if_neg (mt List.contains_iff_mem.1 hx)]
      rw [hnew]
      refine .step (.refl _) hx (hcontext ▸ h x ?_)
      rw [hrun, context, get?_set_self _ _ hlt, Option.getD_some, hnew, hcontext]
  · have hfail : callContext c .addExport vs = fail (.notCallable "method") := by
      unfold callContext
      split
      case h_2 => exact absurd ⟨_, _, rfl⟩ hname
      case h_6 => rfl
      all_goals contradiction
    rw [hfail]
    exact Shadows.bind (.fail _) (fun v => .pure _) u

/-- A method shadows itself if the calls inside of it do, and if it publishes what is allowed. -/
theorem ShadowsAt.callMethod {self} (hc : CallsShadow D (active.whileAsking w self) call call')
    (field : Attr) (args : List Cell) (h : field = .addExport → ∀ c x,
      (((Engine.callMethod call self field args).outcome w).2.context c).exported =
        (w.context c).exported ++ [x] → D.allowed c (w.context c).exported x) :
    ShadowsAt D active w (callMethod call self field args) (callMethod call' self field args) := by
  by_cases hcontext : ∃ c, self = .context c ∧ field = .addExport
  · obtain ⟨c, rfl, rfl⟩ := hcontext
    exact .addExport c args (h rfl c)
  by_cases hself : ∃ r, self = .value (.template r)
  · obtain ⟨r, rfl⟩ := hself
    exact .callTemplateMethod hc rfl field args
  · exact Shadows.callMethod (fun r h => hself ⟨r, h⟩) (fun r hr hf => hcontext ⟨r, hr, hf⟩) args w

/-- A traced engine shadows the engine if what the watcher does can be excused. -/
theorem Engine.callsShadow_traced {watcher}
    (hwatcher : ∀ active (α : Type) (x y : Eval α), Shadows D active x y →
      Shadows D active x (watcher active α y)) (hfree : ∀ c names x, D.allowed c names x)
    (fuel : Nat) (active : Active) :
    CallsShadow D active (Engine.call fuel) (traced watcher fuel active) := by
  induction fuel generalizing active with
  | zero =>
    exact ⟨fun _ _ => .of_keeps (.throw _), fun _ _ _ _ => .of_keeps (.throw _),
      fun _ _ _ => .of_keeps (.throw _)⟩
  | succ fuel ih =>
    exact ⟨fun f args => hwatcher _ _ _ _ fun w => .get_bind (.apply (ih _) fuel args),
      fun e env c f => hwatcher _ _ _ _ (.applyEntry (ih active) fuel e env c f),
      fun self field args => hwatcher _ _ _ _ fun w =>
        .get_bind (.callMethod (ih _) field args fun _ c x _ => hfree c _ x)⟩

/-! ## What every run leads to -/

/-- Nothing is required of a state, and a computation need not be followed once a property holds
that is never lost. -/
abbrev Regime.until (P : World → Prop) (hP : ∀ w u, P w → w.Onward u → P u)
    (hstate : ∀ w state?, P w → P { w with state? }) : Regime where
  fits _ _ := True
  excused _ _ := P
  fits_onward _ _ := trivial
  excused_onward := hP _ _
  opening _ _ := trivial
  settles _ _ := hstate _ _

/-- Nothing is required of a state, and a computation is not followed at all: it may publish what is
allowed. -/
abbrev Regime.ofAllowance (allowed : Allowance) : Regime where
  allowed := allowed
  fits _ _ := True
  excused _ _ _ := True
  fits_onward _ _ := trivial
  excused_onward _ _ := trivial
  opening _ _ := trivial
  settles _ _ _ := trivial

section

variable (fuel rounds : Nat) (r : Ref) (w : World)

theorem Engine.callsShadow_onward (active : Active) : CallsShadow (.ofAllowance fun _ _ _ => True)
    active (Engine.call fuel) (traced (fun _ _ x => x) fuel active) :=
  callsShadow_traced (fun _ _ _ _ h => h) (fun _ _ _ => trivial) fuel active

theorem Script.onward_eval (e : Expr) : w.Onward ((eval (Engine.call fuel) r e).outcome w).2 :=
  (Shadows.eval r (callsShadow_onward fuel []) e w trivial).1

theorem Script.onward_execAll (ss : List Stmt) :
    w.Onward ((execAll (Engine.call fuel) rounds r ss).outcome w).2 :=
  (Shadows.execAll rounds r (callsShadow_onward fuel []) ss w trivial).1

end

/-! ## The discipline of render states -/

/-- A watcher that raises an alarm at a call that starts in a state that does not fit the active
renders, or that leaves another render state than it found. -/
noncomputable def Watcher.ofDiscipline (limit : Int) (alarm : (α : Type) → Eval α) : Watcher :=
  fun active α x =>
    guarded (fun w _ u => Fits limit active w ∧ u.state? = w.state?) (alarm α) x

/-- States must fit the active renders within a limit, and nothing excuses. -/
abbrev Regime.strict (limit : Int) : Regime :=
  .ofFaults limit (fun _ _ => False) fun _ _ _ h => h

/-- A watcher of the discipline has nothing to report. -/
theorem Shadows.ofDiscipline (alarm : (α : Type) → Eval α) {y}
    (h : Shadows (.strict limit) active x y) :
    Shadows (.strict limit) active x (Watcher.ofDiscipline limit alarm active α y) := by
  intro w hw
  obtain ⟨hkeep, hsame⟩ := h w hw
  have hsame : y.outcome w = x.outcome w := hsame.resolve_right fun ⟨_, _, h⟩ => h
  rw [← hsame] at hkeep
  exact ⟨hsame ▸ hkeep, .inl ((outcome_guarded (by exact ⟨hw, hkeep.state⟩) (alarm α)).trans hsame)⟩

/-- Whatever a template is asked for and wherever, all calls inside of the render start in a state
that fits the active renders and leave the render state as it was, and so does the render. -/
theorem render_state_fits_active_renders (hw : Fits limit active w) (request : Request) (r : Ref)
    (fuel : Nat) (alarm : (α : Type) → Eval α) :
    ((request.run (Engine.call fuel) r).outcome w).2.state? = w.state? ∧
      (request.run (Engine.traced (.ofDiscipline limit alarm) fuel
        ((w.template r).name? :: active)) r).outcome w =
          (request.run (Engine.call fuel) r).outcome w := by
  have hcalls : ∀ active, CallsShadow (.strict limit) active (Engine.call fuel)
      (Engine.traced (.ofDiscipline limit alarm) fuel active) :=
    Engine.callsShadow_traced (fun _ _ _ _ h => .ofDiscipline alarm h) (fun _ _ _ => trivial) fuel
  obtain ⟨hkeep, hsame⟩ := ShadowsAt.request (hcalls _) request hw
  exact ⟨hkeep.state, hsame.resolve_right fun ⟨_, _, h⟩ => h⟩

/-- A state in which a template without a name is rendered inside of another one, and a third one is
loaded. -/
def pageInTwoRenders : World :=
  ((loadTemplate (.root {} [.text {} "x"]) (some "page") none).outcome
    { state? := some
        { template? := some "base", depth := 1, maxDepth := 2, stack := [("base", 0)] } }).2

theorem fits_pageInTwoRenders : Fits 2 [none, some "base"] pageInTwoRenders := by
  have hload : (loadTemplate (.root {} [.text {} "x"]) (some "page") none).Keeps :=
    (Keeps.loadUnit _ _ _).bind fun _ _ => .of_contexts rfl rfl rfl
  exact Fits.onward ⟨_, rfl, rfl, by decide, rfl, rfl, by decide⟩ (hload _).mono

/-- The third template is rendered below a template without a name, and the alarm stays silent. -/
theorem render_state_fits_three_renders :
    (match (((Request.render [] none).run (Engine.call 9) 0).outcome pageInTwoRenders).1 with
      | .ok (.str s) => some s
      | _ => none) = some "x" ∧
    (((Request.render [] none).run (Engine.call 9) 0).outcome pageInTwoRenders).2.state? =
      pageInTwoRenders.state? ∧
    ((Request.render [] none).run (Engine.traced (.ofDiscipline 2 fun _ => throw .outOfFuel) 9
        [some "page", none, some "base"]) 0).outcome pageInTwoRenders =
      ((Request.render [] none).run (Engine.call 9) 0).outcome pageInTwoRenders := by
  have hname : (pageInTwoRenders.template 0).name? = some "page" := by decide +kernel
  have hrun := render_state_fits_active_renders fits_pageInTwoRenders (.render [] none) 0 9
    fun _ => throw .outOfFuel
  rw [hname] at hrun
  exact ⟨by decide +kernel, hrun⟩

end Stencil
