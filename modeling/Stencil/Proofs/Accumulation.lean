import Stencil.Proofs.Printout

/-!
# Calls of functions that print

A function that prints begins with an activation of its own and an empty buffer (`Closure.started`).
Its call gives the text that its texts make up, or a text that it returns before its end, and no
other buffer changes. By induction on the fuel, the same holds of all calls that the engine makes
(`Engine.shields_call`).
-/

namespace Stencil

open Script Eval List Store

variable {P : Lists} {call : Call} {limit : Nat} {buffer : Ident} {w : World}

/-! ## The beginning of a call -/

/-- The state in which a function called with the given arguments begins to print. -/
def Closure.started (c : Closure) (buffer : Ident) (args : List Cell) (w : World) : World :=
  { w with
    lists := w.lists.push #[]
    activations := w.activations.push
      ((c.activation args).assign buffer (.value (.list w.lists.size))) }

/-- How a function ends: with what it returns, or with what the texts in its buffer make up. -/
def Script.finish (call : Call) (r : Ref) (buffer : Ident) : Option Cell → Eval Value
  | some c => valueIn c
  | none => do valueIn (← eval call r (.joined buffer))

variable {c : Closure} {args : List Cell} {u : World}

/-- The variables of a function that begins refer to public lists only. -/
theorem Closure.Within.activation (hc : c.Within P) (hargs : ∀ a ∈ args, a.Within P) (size : Nat) :
    (c.activation args).Within P size := by
  have hvar (id : Ident) (x : Cell) (hx : (c.activation args).vars.find? id = some x) :
      id.isBuffer = false ∧ x.Within P := by
    rcases mem_append.1 (Table.mem_of_find?_ofList hx) with hx | hx
    · exact ⟨hc.params id (of_mem_zip hx).1, hargs x (of_mem_zip hx).2⟩
    · exact hc.captured (id, x) hx
  refine ⟨fun id x hx _ => (hvar id x hx).2, fun id x hx hid => ?_⟩
  exact Bool.noConfusion ((hvar id x hx).1.symm.trans hid)

theorem Closure.printsTo_started (args : List Cell) (hb : buffer ∈ c.owned) :
    (c.started buffer args w).PrintsTo w.activations.size buffer w.lists.size :=
  ⟨_, get?_push_self _ _, hb, Table.find?_insert_self _ _ _⟩

theorem Closure.listItems_started (c : Closure) (args : List Cell) :
    (c.started buffer args w).listItems w.lists.size = [] := by
  unfold Objects.listItems Objects.listAt Closure.started
  rw [get?_push_self]
  rfl

/-- The buffer of a function that begins is not public. -/
theorem World.Sealed.started (hw : w.Sealed P) (hc : c.Within P) (hargs : ∀ a ∈ args, a.Within P)
    (hb : buffer.isBuffer = true) :
    (c.started buffer args w).Sealed P ∧
      World.Later nobody nobody P w P (c.started buffer args w) := by
  have hsize : w.lists.size < (w.lists.push #[]).size := by
    rw [size_push]
    exact Nat.lt_succ_self _
  constructor
  · refine ⟨⟨hw.heap.objects.pushHidden (fun _ h => nomatch h), hw.heap.surroundings⟩, hw.templates,
      hw.frames, hw.functions, fun q a ha => ?_⟩
    rcases get?_push_eq_some ha with ha | rfl
    · exact hw.activation_mono (fun _ h => h) (Nat.le_of_lt hsize) (fun _ _ h => h) ha
    · refine (hc.activation hargs _).assign (fun h => nomatch hb.symm.trans h) fun _ => ?_
      exact ⟨_, rfl, hsize, fun h => Nat.lt_irrefl _ (hw.heap.objects.exist _ h)⟩
  · have hactivations : Extends w.activations (c.started buffer args w).activations :=
      (Extends.refl _).push _
    exact ⟨fun _ h => h, Nat.le_of_lt hsize, fun _ _ h => h,
      fun l hl _ _ => w.lists.get?_push_of_lt #[] hl, fun q hq _ => hactivations.2 q hq,
      fun q a ha => ⟨a, (hactivations.2 q (get?_eq_some_lt ha)).trans ha, rfl,
        fun _ _ => rfl⟩, .refl _, .refl _, Nat.le_refl _⟩

/-! ## The end of a call -/

theorem exists_spells {vs} (h : ∀ v ∈ vs, v.IsText) : ∃ s, Spells vs s := by
  induction vs with
  | nil => exact ⟨"", .nil⟩
  | cons v rest ih =>
    obtain ⟨hv, hrest⟩ := forall_mem_cons.1 h
    obtain ⟨s, hs⟩ := ih hrest
    cases v <;> first | exact ⟨_, .cons hs⟩ | exact hv.elim

/-- The texts in a buffer are joined, while the fuel lasts. -/
theorem Script.outcome_finish (hcollect : call.Collects) {r out} (hu : u.PrintsTo r buffer out)
    (hlt : out < u.lists.size) {s} (hs : Spells (u.listItems out) s) :
    (∃ origin objects, (finish call r buffer none).outcome u =
        (.ok (.str (o := origin) s), { u with objects })) ∨
      (finish call r buffer none).outcome u = (.error .outOfFuel, u) := by
  have hargs : (evalAll call r [.name buffer]).outcome u = (.ok [.value (.list out)], u) :=
    outcome_evalAll_cons hu.outcome_read outcome_evalAll_nil
  have heval : (eval call r (.joined buffer)).outcome u =
      (call.method (.value (.ofText "")) .join [.value (.list out)]).outcome u := by
    simp only [Expr.joined, Expr.method, Expr.text, eval, pure_bind]
    rw [fieldOf_eq rfl, pure_bind, outcome_bind_of_ok hargs]
    rfl
  rcases hcollect.join u out with hjoin | hjoin
  · obtain ⟨items, hitems⟩ := exists_get?_of_lt hlt
    rw [Objects.listItems, Objects.listAt, hitems] at hs
    obtain ⟨origin, objects, htext⟩ := outcome_joinWith hitems hs
    refine .inl ⟨origin, objects, ?_⟩
    rw [finish, outcome_bind_of_ok ((heval.trans hjoin).trans (outcome_bind_of_ok htext _))]
    rfl
  · exact .inr (outcome_bind_of_error (heval.trans hjoin) _)

/-- A function that prints runs its statements from its beginning to its end. -/
theorem Engine.outcome_callClosure_printed {ss} (hbody : c.body = printed buffer ss)
    (harity : arityMessage? c.name ⟨c.params.map (·.text), []⟩ args.length = none) (w : World) :
    (callClosure call limit c args).outcome w =
      (recordAll call limit w.activations.size buffer ss >>= fun p =>
        finish call w.activations.size buffer p.1).outcome (c.started buffer args w) := by
  have hassign : (exec call limit w.activations.size (.assign buffer (.list []))).outcome
      (w.activate c args) = (.ok none, c.started buffer args w) := by
    rw [outcome_exec_assign (u := { w.activate c args with lists := w.lists.push #[] }) rfl]
    rw [World.assign, modify_push]
    rfl
  have hstart : (execAll call limit w.activations.size (.assign buffer (.list []) :: ss)).outcome
      (w.activate c args) =
        (execAll call limit w.activations.size ss).outcome (c.started buffer args w) :=
    outcome_execAll_cons hassign
  rw [outcome_callClosure, harity, hbody]
  rw [printed, execAll_append]
  rw [← recordAll_eq buffer ss, map_eq_pure_bind] at hstart
  rcases hrecord : (recordAll call limit w.activations.size buffer ss).outcome
      (c.started buffer args w) with ⟨e | ⟨result, vs⟩, u⟩
  · rw [outcome_bind_of_error hrecord] at hstart ⊢
    exact outcome_bind_of_error (outcome_bind_of_error hstart _) _
  · rw [outcome_bind_of_ok hrecord] at hstart ⊢
    rw [bind_assoc, outcome_bind_of_ok hstart]
    cases result with
    | some value => rfl
    | none =>
      simp only [execAll, exec, bind_assoc, pure_bind]
      rfl

theorem World.Sealed.withObjects (hu : u.Sealed P) (objects : Nat) : { u with objects }.Sealed P :=
  hu.objects (C := True) (.of_grown ⟨.of_eq rfl rfl rfl, rfl⟩)
    (hu.heap.objects.holds.congr rfl rfl rfl rfl rfl)

/-- A function that has printed texts ends with a text. -/
theorem Script.shieldsAt_finish (hcollect : call.Collects) {r out} (hu : u.Sealed P)
    (hout : u.PrintsTo r buffer out) (hb : buffer.isBuffer = true)
    (htexts : ∀ v ∈ u.listItems out, v.IsText) {result}
    (hresult : ∀ c, result = some c → c.IsText) :
    ShieldsAt (· = r) (· = out) P u (fun _ v _ => v.IsText) (finish call r buffer result) := by
  cases result with
  | some c =>
    obtain ⟨v, rfl, hv⟩ := (hresult c rfl).exists_value
    exact .pure hu hv
  | none =>
    obtain ⟨s, hs⟩ := exists_spells htexts
    rcases outcome_finish hcollect hout (hu.hidden_of_printsTo hb hout).1 hs with
      ⟨origin, objects, hfinish⟩ | hfinish
    · exact .of_ok hfinish (.of_extends rfl rfl (.refl _) (.refl _) (.refl _))
        (hu.withObjects objects) trivial
    · exact .of_error hfinish hu

/-- What happens in a call, seen from the state before it: the activation and the buffer of the call
are new. -/
theorem Eval.ShieldsAt.of_started {α : Type} (hc : c.Within P) (hargs : ∀ a ∈ args, a.Within P)
    (hb : buffer.isBuffer = true) (hw : w.Sealed P) {Q} {x y : Eval α}
    (hx : ShieldsAt (· = w.activations.size) (· = w.lists.size) P (c.started buffer args w) Q x)
    (hy : y.outcome w = x.outcome (c.started buffer args w)) : ShieldsAt nobody nobody P w Q y := by
  obtain ⟨P', hlater, hu, hQ⟩ := hx
  unfold ShieldsAt
  rw [hy]
  have hbegin := (hw.started hc hargs hb).2
  refine ⟨P', ?_, hu, hQ⟩
  refine ((hbegin.weaken (fun _ _ h => h.elim) fun _ _ h => h.elim).trans hlater).weaken ?_ ?_
  · rintro q hq rfl
    exact Nat.lt_irrefl _ hq
  · rintro l hl rfl
    exact Nat.lt_irrefl _ hl

/-- Calling a function gives a text, and leaves all buffers as they are. -/
theorem Engine.shields_callClosure (hc : call.Shields) (hcollect : call.Collects)
    (hclosure : c.Within P) (hargs : ∀ a ∈ args, a.Within P) :
    Shields nobody P (fun _ => Value.IsText) (callClosure call limit c args) := by
  intro w hw
  obtain ⟨buffer, ss, hb, howned, hbody, hprints⟩ := hclosure.prints
  cases harity : arityMessage? c.name ⟨c.params.map (·.text), []⟩ args.length with
  | some m => exact .of_error (by rw [outcome_callClosure, harity]) hw
  | none =>
    refine .of_started hclosure hargs hb hw ?_ (outcome_callClosure_printed hbody harity w)
    have hout := Closure.printsTo_started (w := w) args howned
    have hfills : Fills w.activations.size buffer w.lists.size P (fun _ => Recorded true)
        (recordAll call limit w.activations.size buffer ss) := hprints.fills hc hb hcollect
    have hrun := hfills _ (hw.started hclosure hargs hb).1 hout
    refine hrun.bind fun P' p u hlater hu hrecord => ?_
    obtain ⟨vs, hvs, hrecord⟩ := hrecord
    rw [Closure.listItems_started, nil_append] at hvs
    exact shieldsAt_finish hcollect hu (hlater.printsTo hb hout) hb (hvs ▸ hrecord.texts)
      hrecord.result

/-! ## All calls -/

theorem Engine.collects_call : ∀ fuel, (Engine.call fuel).Collects
  | 0 => ⟨fun _ _ _ => .inr rfl, fun _ _ => .inr rfl⟩
  | _ + 1 => ⟨fun _ _ _ => .inl rfl, fun _ _ => .inl rfl⟩

/-- Whatever is called, buffers are kept apart. -/
theorem Engine.shields_call (fuel : Nat) : (Engine.call fuel).Shields := by
  induction fuel with
  | zero =>
    exact ⟨fun _ _ => .throw _, fun _ _ _ _ => .throw _, fun _ _ _ _ => .throw _,
      fun _ _ => .throw _⟩
  | succ fuel ih =>
    have hclosure {P : Lists} {c : Closure} {args : List Cell} (hc : c.Within P)
        (hargs : ∀ a ∈ args, a.Within P) :
        Shields nobody P (fun _ => Value.IsText) (callClosure (call fuel) fuel c args) :=
      shields_callClosure ih (collects_call fuel) hc hargs
    refine ⟨fun hf hargs => shields_apply ih hclosure hf hargs,
      fun c f _ henv => shields_applyEntry ih hclosure henv c f,
      fun field _ hself hargs => shields_callMethod ih field hself hargs, fun c name => ?_⟩
    have hblock {P : Lists} : Shields nobody P Value.Within
        (getBlock c (name.constant?.getD .null) : Eval Value) := .lift (guards_getBlock c _)
    exact hblock.bind fun _ v _ hv => .pure ⟨v, rfl, hv⟩

end Stencil
