import Stencil.Proofs.Nesting

/-!
# How renders settle faults

A fault that is no report becomes one in the innermost render around it, with the name and the stack
of that render; a report passes. The one exception is a fault that cannot be put into words: the
fault met while looking for the words takes its place and is left to the next render.
`Active.settle` says so for any number of renders, and a traced engine with a watcher that compares
every halted call with the result of the whole run has nothing to report.
-/

namespace Stencil

open Engine Eval

variable {α : Type}

/-- What the active renders make of a fault. -/
def Active.settle : Active → Fault → Fault
  | [], f => f
  | name? :: outer, f =>
    if f.family = .template then f
    else
      match f.wording with
      | .error cause => settle outer cause
      | .ok wording =>
        .report (.render {
          message := if wording.isEmpty then f.className else wording
          template? := name?
          stack := stack outer })

/-- A report passes every render. -/
theorem Active.settle_of_template {f} (h : f.family = .template) (active : Active) :
    active.settle f = f := by
  cases active with
  | nil => rfl
  | cons name? outer => simp only [settle, h, if_true]

theorem Active.settle_cons (name? : Option String) (outer : Active) (f : Fault) :
    Active.settle (name? :: outer) f = settle outer (f.settledBy name? (stack outer)) := by
  rw [settle, Fault.settledBy]
  by_cases h : f.family = .template
  · rw [if_pos h, if_pos h, settle_of_template h]
  · rw [if_neg h, if_neg h]
    cases f.wording with
    | error cause => rfl
    | ok wording => exact (settle_of_template rfl outer).symm

/-- Only a fault that cannot be put into words leaves a render as something else than a report. -/
theorem Fault.settledBy_family (name? : Option String) (stack : TemplateStack) (f : Fault) :
    (f.settledBy name? stack).family = .template ∨
      f = .keyUnprintable (f.settledBy name? stack) := by
  unfold settledBy
  by_cases h : f.family = .template
  · simp only [h, if_true, true_or]
  · simp only [h, if_false]
    cases f with
    | keyUnprintable cause => exact .inr rfl
    | _ => exact .inl rfl

/-- A watcher that raises an alarm at a call that ends with a fault if the result of the whole run
is not what the active renders make of that fault. -/
noncomputable def Watcher.ofSettlement (result : Except Halt Value) (alarm : (α : Type) → Eval α) :
    Watcher :=
  fun active α x =>
    guarded (fun _ halt? _ => ∀ f, halt? = some (.fault f) →
      result = .error (.fault (active.settle f))) (alarm α) x

/-- A fault excuses whatever happens if the result of the whole run is something else than what the
active renders make of it. -/
def Unsettled (result : Except Halt Value) (active : Active) (f : Fault) : Prop :=
  result ≠ .error (.fault (active.settle f))

theorem settles_unsettled (result : Except Halt Value) : Settles (Unsettled result) := by
  intro name? outer f h
  rw [Unsettled, Active.settle_cons] at h
  exact h

/-- States must fit the active renders, and faults excuse that are not what the run ends with. -/
abbrev Regime.ofResult (limit : Int) (result : Except Halt Value) : Regime :=
  .ofFaults limit _ (settles_unsettled result)

theorem Shadows.ofSettlement {limit active} (result : Except Halt Value)
    (alarm : (α : Type) → Eval α) {x y} (h : Shadows (.ofResult limit result) active x y) :
    Shadows (.ofResult limit result) active x (Watcher.ofSettlement result alarm active α y) := by
  intro w hw
  obtain ⟨hkeep, hsame⟩ := h w hw
  refine ⟨hkeep, ?_⟩
  rcases hsame with hsame | hexcused
  · by_cases hpass : ∀ f, Except.halt? (y.outcome w).1 = some (.fault f) →
        result = .error (.fault (active.settle f))
    · exact .inl ((outcome_guarded hpass (alarm α)).trans hsame)
    · right
      obtain ⟨f, hf⟩ := Classical.not_forall.1 hpass
      obtain ⟨hhalt, hresult⟩ := Classical.not_imp.1 hf
      exact ⟨f, hsame ▸ hhalt, hresult⟩
  · exact .inr hexcused

/-! ## What a request leaves -/

/-- Meet a request, given what is done with the entry point in its context and frame. -/
def Request.runBy (start : Template → Value → Ref → Ref → Eval Value) (r : Ref) :
    Request → Eval Value
  | .render vars frame? => do
    let t := (← get).template r
    checkAlive t.name?
    let context ← renderContext t vars
    let frame ← newFrame { parent := frame? }
    start t t.root context frame
  | .renderBlock block vars => do
    let t := (← get).template r
    match t.blocks.find? block with
    | none => failWith (.noSuchBlock t.name? block t.blocks.keys)
    | some entry =>
      checkAlive t.name?
      let context ← renderContext t vars
      let frame ← newFrame {}
      start t entry context frame
  | .getModule => do
    let t := (← get).template r
    checkAlive t.name?
    let context ← renderContext t []
    let frame ← newFrame {}
    let _ ← start t t.root context frame
    exportsDict context

theorem Request.run_eq (call : Call) (r : Ref) (request : Request) :
    request.run call r = request.runBy (runEntry call) r := by
  cases request <;> rfl

/-- Meet a request with a render that leaves faults as they are. -/
def Request.runUnsettled (call : Call) (r : Ref) (request : Request) : Eval Value :=
  request.runBy (fun t entry context frame =>
    inRender t.name? (enter call entry .environment context frame)) r

/-- The state with the context and the frame of a new render. -/
def World.prepared (w : World) (t : Template) (vars : List (String × Value)) (frame : Frame) :
    World :=
  { w with
    contexts := w.contexts.push (.ofBlocks (w.env.globals.insertAll vars) t.blocks.entries)
    frames := w.frames.push frame }

/-- While the environment is alive, the context and the frame of a render are made. -/
theorem World.outcome_prepare {w} (halive : w.env.alive = true) (t : Template)
    (vars : List (String × Value)) (frame : Frame) (next : Ref → Ref → Eval α) : (do
      checkAlive t.name?
      let context ← renderContext t vars
      let frame ← newFrame frame
      next context frame : Eval α).outcome w =
      (next w.contexts.size w.frames.size).outcome (w.prepared t vars frame) := by
  rw [outcome_bind_of_ok (outcome_checkAlive halive t.name?)]
  rfl

/-- While the environment is alive, a request is refused with a report, or starts a render and
succeeds if the render does. -/
theorem Request.outcome_runBy {w} (halive : w.env.alive = true) (r : Ref) (request : Request) :
    (∃ report, ∀ start, (request.runBy start r).outcome w = (.error (.fault (.report report)), w)) ∨
    ∃ entry context frame u finish,
      (∀ v u, ∃ a u', (finish v : Eval Value).outcome u = (.ok a, u')) ∧
      ∀ start, (request.runBy start r).outcome w =
        (start (w.template r) entry context frame >>= finish).outcome u := by
  have hpure (v : Value) (u : World) : ∃ a u', (pure v : Eval Value).outcome u = (.ok a, u') :=
    ⟨_, _, rfl⟩
  cases request with
  | render vars frame? =>
    refine .inr ⟨(w.template r).root, w.contexts.size, w.frames.size,
      w.prepared (w.template r) vars { parent := frame? }, pure, hpure, fun start => ?_⟩
    unfold runBy
    rw [outcome_get_bind, bind_pure]
    exact World.outcome_prepare halive _ _ _ _
  | renderBlock block vars =>
    cases hblock : (w.template r).blocks.find? block with
    | none =>
      refine .inl ⟨.noSuchBlock (w.template r).name? block (w.template r).blocks.keys,
        fun start => ?_⟩
      unfold runBy
      rw [outcome_get_bind]
      simp only [hblock]
      rfl
    | some entry =>
      refine .inr ⟨entry, w.contexts.size, w.frames.size, w.prepared (w.template r) vars {}, pure,
        hpure, fun start => ?_⟩
      unfold runBy
      rw [outcome_get_bind, bind_pure]
      simp only [hblock]
      exact World.outcome_prepare halive _ _ _ _
  | getModule =>
    refine .inr ⟨(w.template r).root, w.contexts.size, w.frames.size,
      w.prepared (w.template r) [] {}, fun _ => liftM (exportsDict w.contexts.size),
      fun v u => ⟨_, _, rfl⟩, fun start => ?_⟩
    unfold runBy
    rw [outcome_get_bind]
    exact World.outcome_prepare halive _ _ _ _

/-- Only a fault that cannot be put into words leaves the render of an entry point as something else
than a report. -/
theorem Engine.family_of_outcome_runEntry {call t entry context frame w u g}
    (h : (runEntry call t entry context frame).outcome w = (.error (.fault g), u)) :
    g.family = .template ∨ (inRender t.name?
      (enter call entry .environment context frame)).outcome w =
        (.error (.fault (.keyUnprintable g)), u) := by
  cases hopen : RenderState.opening w.state? w.env.maxDepth t.name? with
  | error report =>
    rw [outcome_runEntry_of_refused hopen] at h
    cases h
    exact .inl rfl
  | ok s =>
    rcases hrun : (call.enter entry .environment context frame).outcome { w with state? := some s }
      with ⟨halt | v, u'⟩
    · rw [outcome_runEntry_of_error hopen hrun] at h
      cases halt with
      | outOfFuel => cases h
      | fault f =>
        cases h
        refine (f.settledBy_family t.name? u'.stack).imp id fun hf => ?_
        rw [← hf, outcome_inRender_of_opened hopen, outcome_withState]
        unfold enter
        rw [hrun]
    · rw [outcome_runEntry_of_ok hopen hrun] at h
      cases h

theorem Request.family_of_outcome_run {call w u g} (halive : w.env.alive = true) (request : Request)
    (r : Ref) (h : (request.run call r).outcome w = (.error (.fault g), u)) : g.family = .template ∨
      (request.runUnsettled call r).outcome w = (.error (.fault (.keyUnprintable g)), u) := by
  rw [run_eq] at h
  obtain ⟨report, hrefused⟩ | ⟨entry, context, frame, v, finish, hfinish, hstart⟩ :=
    outcome_runBy halive r request
  · rw [hrefused] at h
    cases h
    exact .inl rfl
  · rw [hstart] at h
    rcases hrun : (runEntry call (w.template r) entry context frame).outcome v with ⟨halt | a, v'⟩
    · rw [outcome_bind_of_error hrun] at h
      cases h
      refine (family_of_outcome_runEntry hrun).imp id fun hunsettled => ?_
      unfold runUnsettled
      rw [hstart]
      exact outcome_bind_of_error hunsettled finish
    · rw [outcome_bind_of_ok hrun] at h
      obtain ⟨b, u', hb⟩ := hfinish a v'
      rw [hb] at h
      cases h

/-! ## Every fault is settled once -/

/-- A request made outside of any render leaves a report, unless the fault inside of it cannot be
put into words. Every call that ends with a fault, in a render at any depth, makes the whole run end
with what the active renders make of that fault. -/
theorem faults_settled_by_innermost_render {w : World} (hstate : w.state? = none)
    (halive : w.env.alive = true) (request : Request) (r : Ref) (fuel : Nat)
    (alarm : (α : Type) → Eval α) :
    (∀ g, ((request.run (Engine.call fuel) r).outcome w).1 = .error (.fault g) →
      g.family = .template ∨ ((request.runUnsettled (Engine.call fuel) r).outcome w).1 =
        .error (.fault (.keyUnprintable g))) ∧
    (request.run (Engine.traced
        (.ofSettlement ((request.run (Engine.call fuel) r).outcome w).1 alarm) fuel
        [(w.template r).name?]) r).outcome w =
      (request.run (Engine.call fuel) r).outcome w := by
  constructor
  · intro g hg
    have hrun : (request.run (Engine.call fuel) r).outcome w =
        (.error (.fault g), ((request.run (Engine.call fuel) r).outcome w).2) :=
      Prod.ext hg rfl
    exact (request.family_of_outcome_run halive r hrun).imp id fun h => congrArg Prod.fst h
  · generalize hresult : ((request.run (Engine.call fuel) r).outcome w).1 = result
    have hcalls : ∀ active, CallsShadow (.ofResult w.env.maxDepth result) active (Engine.call fuel)
        (Engine.traced (.ofSettlement result alarm) fuel active) :=
      Engine.callsShadow_traced (fun _ _ _ _ h => .ofSettlement result alarm h)
        (fun _ _ _ => trivial) fuel
    have hfits : (Regime.ofResult w.env.maxDepth result).fits [] w := ⟨hstate, rfl⟩
    obtain ⟨-, hsame | ⟨f, hf, hexcused⟩⟩ := ShadowsAt.request (hcalls _) request hfits
    · exact hsame
    · rw [hresult] at hf
      cases result with
      | ok a => cases hf
      | error e =>
        cases hf
        exact absurd rfl hexcused

/-- A page that includes a part in which a number is added to a text. -/
def brokenPages : World :=
  { env := { loader? := some (.dict [
      ("page", .root {} [.inclusion {} (.literal {} (.str "part"))]),
      ("part", .root {} [.output {} [
        .binary {} .add (.literal {} (.int 1)) (.literal {} (.str "x"))]])]) } }

/-- The state in which the page is loaded. -/
def brokenPart : World :=
  ((getTemplate (.ofText "page") false).outcome brokenPages).2

theorem brokenPart_setting : brokenPages.Onward brokenPart :=
  (Keeps.getTemplate (.ofText "page") false brokenPages).mono

/-- The render of the part settles the fault; the page leaves it as it is. -/
theorem fault_of_broken_part_settled_once :
    (match (((Request.render [] none).run (Engine.call 9) 0).outcome brokenPart).1 with
      | .error (.fault (.report (.render r))) => some (r.message, r.template?, r.stack)
      | _ => none) =
        some ("unsupported operand type(s) for +: 'int' and 'str'", some "part", [("page", 0)]) ∧
    (∀ g, (((Request.render [] none).run (Engine.call 9) 0).outcome brokenPart).1 =
        .error (.fault g) →
      g.family = .template ∨
        (((Request.render [] none).runUnsettled (Engine.call 9) 0).outcome brokenPart).1 =
          .error (.fault (.keyUnprintable g))) ∧
    ((Request.render [] none).run (Engine.traced
        (.ofSettlement (((Request.render [] none).run (Engine.call 9) 0).outcome brokenPart).1
          fun _ => throw .outOfFuel) 9 [some "page"]) 0).outcome brokenPart =
      ((Request.render [] none).run (Engine.call 9) 0).outcome brokenPart := by
  have hname : (brokenPart.template 0).name? = some "page" := by decide +kernel
  have halive : brokenPart.env.alive = true := congrArg Environment.alive brokenPart_setting.env
  have hrun := faults_settled_by_innermost_render brokenPart_setting.state halive
    (.render [] none) 0 9 fun _ => throw .outOfFuel
  rw [hname] at hrun
  exact ⟨by decide +kernel, hrun⟩

/-- A whole number with too many digits cannot be printed. As a missing key it makes a fault that
cannot be put into words, and a fault that is no report leaves the render. -/
theorem render_of_unprintable_key :
    let tree : Node := .root {} [.output {} [
      .call {} (.lookup {} (.dict {} []) (.literal {} (.str "pop")))
        (some [.binary {} .pow (.literal {} (.int 10)) (.literal {} (.int 5000))])]]
    let run : Eval Value := do
      let t ← Eval.loadTemplate tree (some "t.html") none
      Engine.render (Engine.call 9) t [] none
    (match (run.outcome {}).1 with
      | .error (.fault f) => some (f.className, f.message, decide (f.family = .template))
      | _ => none) =
        some ("ValueError", Fault.tooManyDigits.message, false) := by
  decide +kernel

end Stencil
