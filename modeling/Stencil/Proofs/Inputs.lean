import Stencil.Proofs.Growth
import Stencil.Proofs.OwnFrame

/-!
# Rendering leaves its inputs alone

Running tame code changes no list, no dictionary and no frame that was there before, except the
buffer that the running function prints to, the frames that its code has opened, and dictionaries
that stand in these frames under a loop's own names (`Script.Tame.passes`). A function makes its
buffer before it prints, so a call changes nothing that was there before it, and a render of tame
templates leaves every list and every dictionary as it was (`render_keeps_inputs`).
-/

namespace Stencil

open Script Eval List Store Table World

variable {builtin : String → Prop} {base : World} {r b : Ref} {buffer : Ident}

/-! ## Where running code stands -/

/-- The state of a function that runs in the activation `r` and prints to the list `b`, both of
which are newer than the state `base`, whose objects are as they were. -/
structure Working (builtin : String → Prop) (base : World) (r : Ref) (buffer : Ident) (b : Ref)
    (w : World) : Prop where
  tame : w.Tame builtin
  grown : base.Grown w
  isBuffer : buffer.isBuffer = true
  activation : base.activations.size ≤ r
  list : base.lists.size ≤ b
  prints : ∃ a, w.activations.get? r = some a ∧ buffer ∈ a.owned ∧
    a.vars.find? buffer = some (.value (.list b))

/-- The frame `f` is newer than the state `base`, and only dictionaries that are newer stand on the
way of the paths that are bound in it. -/
structure OwnFrame (paths : List (List String)) (base : World) (f : Ref) (w : World) : Prop where
  unnested : Unnested paths
  fresh : base.frames.size ≤ f
  exist : f < w.frames.size
  charted : ∃ place, Charted (Inner paths) base.dicts.size place (w.frame f).vars w.dicts

/-- A running function whose variable for the frame holds `frame?`: if code is to bind names there,
this is a frame of its own. -/
structure Placed (builtin : String → Prop) (base : World) (r : Ref) (buffer : Ident) (b : Ref)
    (frame? : Option Cell) (paths : List (List String)) (w : World) : Prop where
  working : Working builtin base r buffer b w
  frame : HoldsFrame r frame? w.activations
  own : ∀ p ∈ paths, ∃ f, frame? = some (.frame f) ∧ OwnFrame paths base f w

variable {w u : World}

theorem World.frame_eq_of_extends (h : Extends w.frames u.frames) {f} (hf : f < w.frames.size) :
    u.frame f = w.frame f := by
  rw [frame, frame, h.2 f hf]

theorem OwnFrame.grow {paths f} (h : OwnFrame paths base f w) (hframes : Extends w.frames u.frames)
    (hdicts : Extends w.dicts u.dicts) : OwnFrame paths base f u where
  unnested := h.unnested
  fresh := h.fresh
  exist := Nat.lt_of_lt_of_le h.exist hframes.1
  charted := by
    obtain ⟨place, hplace⟩ := h.charted
    rw [frame_eq_of_extends hframes h.exist]
    exact ⟨place, hplace.grow hdicts⟩

theorem Working.grow (h : Working builtin base r buffer b w) (hgrown : w.Grown u)
    (htame : u.Tame builtin) : Working builtin base r buffer b u where
  tame := htame
  grown := h.grown.trans hgrown
  isBuffer := h.isBuffer
  activation := h.activation
  list := h.list
  prints := by
    obtain ⟨a, ha, hbuffer⟩ := h.prints
    exact ⟨a, (hgrown.activations.2 r (get?_eq_some_lt ha)).trans ha, hbuffer⟩

/-- Assigning another identifier than the buffer. -/
theorem Working.assign (h : Working builtin base r buffer b w) {id} (hid : id.isBuffer = false)
    (c : Cell) : Working builtin base r buffer b
      (w.assign r id c) where
  tame := h.tame.assign r id c
  grown := ⟨h.grown.objects, h.grown.frames, h.grown.activations.modify h.activation _, h.grown.env⟩
  isBuffer := h.isBuffer
  activation := h.activation
  list := h.list
  prints := by
    obtain ⟨a, ha, hown, hfind⟩ := h.prints
    refine ⟨a.assign id c, ?_, hown, ?_⟩
    · rw [w.activations.get?_modify_self, ha]
      rfl
    · have hne : buffer ≠ id := by
        rintro rfl
        rw [h.isBuffer] at hid
        cases hid
      exact (a.vars.find?_insert_of_ne hne c).trans hfind

namespace Placed

variable {frame? : Option Cell} {paths : List (List String)}

variable {w : World}

theorem grow {u} (h : Placed builtin base r buffer b frame? paths w) (hgrown : w.Grown u)
    (htame : u.Tame builtin) : Placed builtin base r buffer b frame? paths u where
  working := h.working.grow hgrown htame
  frame := h.frame.of_extends hgrown.activations
  own p hp := by
    obtain ⟨f, hf, hown⟩ := h.own p hp
    exact ⟨f, hf, hown.grow hgrown.frames hgrown.objects.dicts⟩

theorem assign (h : Placed builtin base r buffer b frame? paths w) {id} (hid : id.isPlain = true)
    (c : Cell) : Placed builtin base r buffer b frame? paths
      (w.assign r id c) := by
  simp only [Ident.isPlain, Bool.and_eq_true, Bool.not_eq_true', bne_iff_ne] at hid
  refine ⟨h.working.assign hid.1.1 c, h.frame.assign_of_ne hid.2 c, fun p hp => ?_⟩
  obtain ⟨f, hf, hown⟩ := h.own p hp
  exact ⟨f, hf, hown.grow (.refl _) (.refl _)⟩

theorem alike {α : Type} {x : Eval α} (hx : Grows builtin x) :
    Alike (Always (Placed builtin base r buffer b frame? paths)) x x :=
  Always.alike_iff.2 fun w hw => hw.grow (hx w hw.working.tame).1 (hx w hw.working.tame).2

theorem alike_write {id} (hid : id.isPlain = true) (c : Cell) :
    Alike (Always (Placed builtin base r buffer b frame? paths)) (write r id c) (write r id c) :=
  Always.alike_iff.2 fun _ hw => hw.assign hid c

/-! ## Printing and binding names -/

/-- What is printed goes to the buffer. -/
theorem append (h : Placed builtin base r buffer b frame? paths w) (v : Value) :
    Placed builtin base r buffer b frame? paths (w.append b v) where
  working :=
    { tame := h.working.tame.congr rfl rfl rfl rfl
      grown := ⟨⟨h.working.grown.objects.lists.modify h.working.list _,
        h.working.grown.objects.dicts, h.working.grown.objects.records⟩, h.working.grown.frames,
        h.working.grown.activations, h.working.grown.env⟩
      isBuffer := h.working.isBuffer
      activation := h.working.activation
      list := h.working.list
      prints := h.working.prints }
  frame := h.frame
  own p hp := by
    obtain ⟨f, hf, hown⟩ := h.own p hp
    exact ⟨f, hf, hown.grow (.refl _) (.refl _)⟩

/-- A frame of one's own may get other variables. -/
theorem withFrame {f vars dicts place}
    (h : Placed builtin base r buffer b (some (.frame f)) paths w) (hown : OwnFrame paths base f w)
    (hdicts : Extends base.dicts dicts)
    (hcharted : Charted (Inner paths) base.dicts.size place vars dicts) :
    Placed builtin base r buffer b (some (.frame f)) paths (w.withFrame f vars dicts) where
  working :=
    { tame := h.working.tame.congr rfl rfl rfl rfl
      grown := ⟨⟨h.working.grown.objects.lists, hdicts, h.working.grown.objects.records⟩,
        h.working.grown.frames.set hown.fresh _, h.working.grown.activations, h.working.grown.env⟩
      isBuffer := h.working.isBuffer
      activation := h.working.activation
      list := h.working.list
      prints := h.working.prints }
  frame := h.frame
  own p _ := by
    refine ⟨f, rfl, hown.unnested, hown.fresh, ?_, place, ?_⟩
    · exact Nat.lt_of_lt_of_eq hown.exist (w.frames.size_set _ _).symm
    · rw [w.frame_withFrame hown.exist]
      exact hcharted

variable {call : Call} {limit : Nat} (hcall : call.Tame builtin)

include hcall

/-- Asking the buffer to take something more. -/
theorem alike_append (cells : List Cell) :
    Alike (Always (Placed builtin base r buffer b frame? paths))
      (call.method (.value (.list b)) .append cells)
      (call.method (.value (.list b)) .append cells) := by
  refine Always.alike_iff.2 fun w hw => ?_
  obtain hout | ⟨inner, hinner⟩ := hcall.machine (.value (.list b)) .append cells
  · rw [hout]
    exact hw
  · rw [hinner]
    -- Only a single value can be taken; everything else is refused.
    rcases cells with _ | ⟨c, _ | ⟨_, _⟩⟩
    · exact hw
    · cases c with
      | value v => exact hw.append v
      | _ => exact hw
    · cases c <;> exact hw

theorem alike_emit {e : Expr} (he : e.Tame builtin) :
    Alike (Always (Placed builtin base r buffer b frame? paths))
      (exec call limit r (.emit buffer e))
      (exec call limit r (.emit buffer e)) := by
  have hargs : Alike (Always (Placed builtin base r buffer b frame? paths)) (evalAll call r [e])
      (evalAll call r [e]) :=
    alike (grows_evalAll (forall_mem_singleton.2 (he.grows hcall r)))
  have heval : Alike (Always (Placed builtin base r buffer b frame? paths))
      (eval call r (.method (.name buffer) .append [e]))
      (eval call r (.method (.name buffer) .append [e])) := by
    refine Always.alike_iff.2 fun w hw => ?_
    obtain ⟨a, ha, hown, hfind⟩ := hw.working.prints
    have hread := outcome_read_own ha hown hfind
    have hpassed := Always.alike_iff.1 hargs w hw
    rcases hcells : (evalAll call r [e]).outcome w with ⟨h | cells, u⟩ <;> rw [hcells] at hpassed
    · rw [outcome_eval_method_of_error .append hread rfl hcells]
      exact hpassed
    · rw [outcome_eval_method .append hread rfl hcells]
      exact Always.alike_iff.1 (alike_append hcall cells) u hpassed
  exact heval.bind fun _ => .pure none

/-- Asking a frame of one's own to bind a name. -/
theorem alike_set {f name} (hname : pathParts name ∈ paths) (c : Cell) :
    Alike (Always (Placed builtin base r buffer b (some (.frame f)) paths))
      (call.method (.frame f) .set [.value (.ofConstant (.str name)), c])
      (call.method (.frame f) .set [.value (.ofConstant (.str name)), c]) := by
  refine Always.alike_iff.2 fun w hw => ?_
  obtain hout | ⟨inner, hinner⟩ :=
    hcall.machine (.frame f) .set [.value (.ofConstant (.str name)), c]
  · rw [hout]
    exact hw
  · rw [hinner]
    cases c with
    | value v =>
      obtain ⟨_, hf, hown⟩ := hw.own _ hname
      cases hf
      obtain ⟨place, hplace⟩ := hown.charted
      obtain ⟨vars, dicts, place', hset, hdicts, hcharted, _⟩ := setInFrame_charted hplace
        hw.working.grown.objects.dicts hown.exist (hown.unnested.bindable hname v)
      have hstate : ((Engine.callMethod inner (.frame f) .set
          [.value (.ofConstant (.str name)), .value v]).outcome w).2 =
            w.withFrame f vars dicts := by
        show ((setInFrame f name v >>= fun _ => pure (Cell.value .none)).outcome w).2 = _
        rw [outcome_bind_of_ok hset]
        rfl
      rw [hstate]
      exact hw.withFrame hown hdicts hcharted
    | _ => exact hw

theorem alike_frameSet {name} (hname : pathParts name ∈ paths) {e} (he : e.Tame builtin) :
    Alike (Always (Placed builtin base r buffer b frame? paths))
      (exec call limit r (.frameSet name e)) (exec call limit r (.frameSet name e)) := by
  have hargs : Grows builtin (evalAll call r [.text name, e]) :=
    grows_evalAll fun e' he' => (Compile.tame_pair (.const _) he e' he').grows hcall r
  have heval : Alike (Always (Placed builtin base r buffer b frame? paths))
      (eval call r (.method (.name .frame) .set [.text name, e]))
      (eval call r (.method (.name .frame) .set [.text name, e])) := by
    refine Always.alike_iff.2 fun w hw => ?_
    obtain ⟨f, rfl, hown⟩ := hw.own _ hname
    have hread : (read r .frame).outcome w = (.ok (.frame f), w) := hw.frame.outcome_read
    have hpassed := Always.alike_iff.1 (alike hargs) w hw
    rcases hcells : (evalAll call r [.text name, e]).outcome w with ⟨h | cells, u⟩ <;>
      rw [hcells] at hpassed
    · rw [outcome_eval_method_of_error .set hread rfl hcells]
      exact hpassed
    · rw [outcome_eval_method .set hread rfl hcells]
      obtain ⟨_, _, _, rfl, hfirst, hrest⟩ := outcome_evalAll_cons_eq_ok hcells
      obtain ⟨c, _, _, rfl, -, hnil⟩ := outcome_evalAll_cons_eq_ok hrest
      cases hfirst
      cases hnil
      exact Always.alike_iff.1 (alike_set hcall hname c) u hpassed
  exact heval.bind fun _ => .pure none

end Placed

/-! ## Code in a frame of its own -/

/-- Statements that lead from one property to another, told of one run. -/
theorem Leads.always_iff {P Q R x} : Leads (Always P) (Always Q) (Always R) x x ↔
      ∀ w, P w → R (x.outcome w).2 ∧ ((x.outcome w).1 = .ok none → Q (x.outcome w).2) := by
  constructor
  · intro h w hw
    obtain ⟨a, c, u, u', hu, -, -, ⟨-, hR⟩, hQ⟩ | ⟨e, u, u', hu, -, -, hR⟩ :=
      (h w w ⟨rfl, hw⟩).results_or_halt
    · rw [hu]
      refine ⟨hR, fun ha => ?_⟩
      cases ha
      exact (hQ rfl).2
    · rw [hu]
      exact ⟨hR, fun ha => by cases ha⟩
  · rintro h _ w ⟨rfl, hw⟩
    obtain ⟨hR, hQ⟩ := h w hw
    rcases hx : x.outcome w with ⟨e | a, u⟩ <;> rw [hx] at hR hQ
    · exact .error ⟨rfl, hR⟩
    · exact .ok ⟨rfl, ⟨rfl, hR⟩, fun ha => ⟨rfl, hQ (congrArg _ ha)⟩⟩

/-- The state `base` with the dictionaries and the frames of a later one. -/
def World.since (base w : World) : World :=
  { base with dicts := w.dicts, frames := w.frames }

/-- What is kept since a later state is kept since the first one. -/
theorem Working.of_since (h : Working builtin base r buffer b w)
    (hu : Working builtin (base.since w) r buffer b u) : Working builtin base r buffer b u where
  tame := hu.tame
  grown := ⟨⟨hu.grown.objects.lists, h.grown.objects.dicts.trans hu.grown.objects.dicts,
    hu.grown.objects.records⟩, h.grown.frames.trans hu.grown.frames, hu.grown.activations,
    hu.grown.env⟩
  isBuffer := hu.isBuffer
  activation := hu.activation
  list := hu.list
  prints := hu.prints

/-- From the state `w`, in which the innermost frame is `f`, code has opened a frame of its own. -/
structure Entered (builtin : String → Prop) (base : World) (r : Ref) (buffer : Ident) (b : Ref)
    (own : List (List String)) (f : Ref) (w u : World) : Prop where
  placed : Placed builtin (base.since w) r buffer b (some (.frame w.frames.size)) own u
  exist : w.frames.size < u.frames.size
  parent : (u.frame w.frames.size).parent = some f

section

variable {own paths : List (List String)} {frame? : Option Cell} {f : Ref} {w : World}

theorem Placed.enter (h : Placed builtin base r buffer b (some (.frame f)) paths w)
    (hown : Unnested own) : Entered builtin base r buffer b own f w { w with
        frames := w.frames.push { parent := some f }
        activations := w.activations.modify r (·.assign .frame (.frame w.frames.size)) } := by
  have hframe : (w.frames.push { parent := some f }).get? w.frames.size =
      some { parent := some f } := w.frames.get?_push_self _
  have hlt : w.frames.size < (w.frames.push { parent := some f }).size := by simp
  have hassign := @Working.assign _ _ _ _ _ _ h.working .frame rfl (.frame w.frames.size)
  refine ⟨⟨⟨?_, ?_, hassign.isBuffer, hassign.activation, hassign.list, hassign.prints⟩,
    h.frame.assign _, fun p _ => ⟨_, rfl, hown, Nat.le_refl _, hlt, fun _ => none, ?_⟩⟩, hlt, ?_⟩
  · exact hassign.tame.congr rfl rfl rfl rfl
  · exact ⟨⟨hassign.grown.objects.lists, .refl _, hassign.grown.objects.records⟩,
      (Extends.refl _).push _, hassign.grown.activations, hassign.grown.env⟩
  · simp only [World.frame, hframe, Option.getD_some]
    exact .empty _
  · simp only [World.frame, hframe, Option.getD_some]

theorem Placed.leave (h : Placed builtin base r buffer b (some (.frame f)) paths w) {u}
    (hu : Entered builtin base r buffer b own f w u) :
    Placed builtin base r buffer b (some (.frame f)) paths
      (u.assign r .frame (.frame f)) where
  working := h.working.of_since (hu.placed.working.assign rfl _)
  frame := hu.placed.frame.assign _
  own p hp := by
    obtain ⟨g, hg, hown⟩ := h.own p hp
    exact ⟨g, hg, hown.grow hu.placed.working.grown.frames hu.placed.working.grown.objects.dicts⟩

variable {call : Call} {limit : Nat} (hcall : call.Tame builtin) (hg : call.Framing)

include hcall hg

theorem leads_pushFrame (hown : Unnested own) :
    Leads (Always (Placed builtin base r buffer b frame? paths))
      (Always fun u => ∃ w f, frame? = some (.frame f) ∧
        Placed builtin base r buffer b (some (.frame f)) paths w ∧
        Entered builtin base r buffer b own f w u)
      (Always (Working builtin base r buffer b)) (exec call limit r .pushFrame)
      (exec call limit r .pushFrame) := by
  refine Leads.always_iff.2 fun w hw => ?_
  rw [Stmt.pushFrame, exec]
  obtain ⟨e, he⟩ | ⟨f, rfl, hmethod⟩ := hw.frame.outcome_method call (mem_cons_self ..)
  · have heval : (eval call r (.method (.name .frame) .push [])).outcome w = (.error e, w) :=
      outcome_bind_of_error he _
    rw [outcome_bind_of_error heval]
    exact ⟨hw.working, fun h => by cases h⟩
  · have heval : (eval call r (.method (.name .frame) .push [])).outcome w =
        (call.method (.frame f) .push []).outcome w := outcome_bind_of_ok hmethod _
    have hgrows := @hcall.method (.frame f) .push [] rfl w hw.working.tame
    rcases hpush : (call.method (.frame f) .push []).outcome w with ⟨e | c, u⟩ <;>
      rw [hpush] at heval hgrows
    · rw [outcome_bind_of_error heval]
      exact ⟨hw.working.grow hgrows.1 hgrows.2, fun h => by cases h⟩
    · obtain ⟨rfl, rfl⟩ := hg.push hpush
      rw [outcome_bind_of_ok heval]
      have hentered := hw.enter hown
      exact ⟨hw.working.of_since hentered.placed.working, fun _ => ⟨w, f, rfl, hw, hentered⟩⟩

theorem leads_popFrame (hw : Placed builtin base r buffer b (some (.frame f)) paths w) :
    Leads (Always (Entered builtin base r buffer b own f w))
      (Always (Placed builtin base r buffer b (some (.frame f)) paths))
      (Always (Working builtin base r buffer b)) (exec call limit r .popFrame)
      (exec call limit r .popFrame) := by
  refine Leads.always_iff.2 fun u hu => ?_
  have hworking := hw.working.of_since hu.placed.working
  rw [Stmt.popFrame, exec]
  obtain ⟨e, he⟩ | ⟨g, hframe, hmethod⟩ :=
    hu.placed.frame.outcome_method call (mem_cons_of_mem _ mem_cons_self)
  · have heval : (eval call r (.method (.name .frame) .pop [])).outcome u = (.error e, u) :=
      outcome_bind_of_error he _
    rw [outcome_bind_of_error heval]
    exact ⟨hworking, fun h => by cases h⟩
  · cases hframe
    have heval : (eval call r (.method (.name .frame) .pop [])).outcome u =
        (call.method (.frame w.frames.size) .pop []).outcome u := outcome_bind_of_ok hmethod _
    have hgrows := @hcall.method (.frame w.frames.size) .pop [] rfl u hworking.tame
    rcases hpop : (call.method (.frame w.frames.size) .pop []).outcome u with ⟨e | c, v⟩ <;>
      rw [hpop] at heval hgrows
    · rw [outcome_bind_of_error heval]
      exact ⟨hworking.grow hgrows.1 hgrows.2, fun h => by cases h⟩
    · obtain ⟨rfl, rfl⟩ := hg.pop hpop
      rw [outcome_bind_of_ok heval, hu.parent]
      have hleft := hw.leave hu
      exact ⟨hleft.working, fun _ => hleft⟩

omit hcall in
/-- Code that runs in a frame of its own leaves the frame where it is. -/
theorem leads_entered {ss} (hw : Placed builtin base r buffer b (some (.frame f)) paths w)
    (hss : Passes
      (Always (Placed builtin (base.since w) r buffer b (some (.frame w.frames.size)) own))
      (Always (Working builtin (base.since w) r buffer b)) (execAll call limit r ss)
      (execAll call limit r ss)) : Passes (Always (Entered builtin base r buffer b own f w))
      (Always (Working builtin base r buffer b)) (execAll call limit r ss)
      (execAll call limit r ss) := by
  refine Leads.always_iff.2 fun u hu => ?_
  obtain ⟨hworking, hplaced⟩ := Leads.always_iff.1 hss u hu.placed
  have hframed : Alike (Framed u.frames) (execAll call limit r ss) (execAll call limit r ss) :=
    Runs.execAll Framed.closed (hg.parents _) (Framed.runs r) limit ss fun _ _ => trivial
  have hkeeps := Always.alike_iff.1 hframed u ⟨Nat.le_refl _, fun _ _ => rfl⟩
  refine ⟨hw.working.of_since hworking, fun hnone => ⟨hplaced hnone, ?_, ?_⟩⟩
  · exact Nat.lt_of_lt_of_le hu.exist hkeeps.1
  · exact (KeepsParents.parent_eq hkeeps hu.exist).trans hu.parent

/-- Code that opens a frame, runs in it and closes it. -/
theorem passes_framed {ss} (hown : Unnested own) (hss : ∀ (base : World) (frame? : Option Cell),
      Passes (Always (Placed builtin base r buffer b frame? own))
        (Always (Working builtin base r buffer b)) (execAll call limit r ss)
        (execAll call limit r ss)) : Passes (Always (Placed builtin base r buffer b frame? paths))
      (Always (Working builtin base r buffer b))
      (execAll call limit r ([.pushFrame] ++ ss ++ [.popFrame]))
      (execAll call limit r ([.pushFrame] ++ ss ++ [.popFrame])) := by
  rw [append_assoc]
  refine (leads_pushFrame hcall hg hown).single.append ?_
  rintro _ u ⟨rfl, w, f, rfl, hw, hu⟩
  have hinner := leads_entered hg hw (hss (base.since w) (some (.frame w.frames.size)))
  exact hinner.append (leads_popFrame hcall hg hw).single u u ⟨rfl, hu⟩

end

/-! ## Running tame code -/

/-- Loops over something that may change, told of one run. -/
theorem Leads.runLoop_always {P R} (hPR : ∀ w, P w → R w)
    (hnext : ∀ it : Iteration, Alike (Always P) (liftM it.next) (liftM it.next)) {round}
    (hround : ∀ v, Passes (Always P) (Always R) (round v) (round v)) (limit : Nat)
    (source : Value) : Passes (Always P) (Always R) (Script.runLoop limit source round)
      (Script.runLoop limit source round) := by
  have hpre : ∀ w w', Always P w w' → Always R w w' := fun _ _ h => ⟨h.1, hPR _ h.2⟩
  rintro _ w ⟨rfl, hw⟩
  unfold Script.runLoop
  rw [outcome_get_bind]
  split
  · exact .error ⟨rfl, hPR w hw⟩
  · exact roundsOver hpre hround _ _ _ ⟨rfl, hw⟩
  · exact roundsFrom hpre hround hnext _ _ _ _ ⟨rfl, hw⟩

/-- Tame code that comes to its end leaves the variable for the frame as it was. Until then it
changes no list but the buffer, and no older dictionary or frame. -/
theorem Script.Tame.passes {call limit paths ss} (h : Script.Tame builtin buffer paths ss)
    (hcall : call.Tame builtin) (hg : call.Framing) : ∀ (base : World) (frame? : Option Cell),
    Passes (Always (Placed builtin base r buffer b frame? paths))
      (Always (Working builtin base r buffer b)) (execAll call limit r ss)
      (execAll call limit r ss) := by
  have hstart (base : World) (frame? : Option Cell) (buffer : Ident) (paths : List (List String))
      (w w' : World) (h : Always (Placed builtin base r buffer b frame? paths) w w') :
      Always (Working builtin base r buffer b) w w' := ⟨h.1, h.2.working⟩
  have hvalue (c : Cell) : Grows builtin (liftM (valueIn c)) := .lift (looks_valueIn c).guards
  induction h with
  | nil => exact fun base frame? => .of_alike (.pure none) (hstart base frame? _ _)
  | append _ _ ih ih' => exact fun base frame? => (ih base frame?).append (ih' base frame?)
  | expr he =>
    intro base frame?
    refine Leads.single (.of_alike (Placed.alike ?_) (hstart base frame? _ _))
    exact (he.grows hcall r).bind fun _ => .pure none
  | assign hid he =>
    intro base frame?
    refine Leads.single (.of_alike ?_ (hstart base frame? _ _))
    refine (Placed.alike (he.grows hcall r)).bind fun c => ?_
    exact (Placed.alike_write hid c).bind fun _ => .pure none
  | increment hid he =>
    intro base frame?
    refine Leads.single (.of_alike ?_ (hstart base frame? _ _))
    refine (Placed.alike (grows_read r _)).bind fun c => (Placed.alike (hvalue c)).bind fun v => ?_
    refine (Placed.alike (he.grows hcall r)).bind fun c => ?_
    refine (Placed.alike (hvalue c)).bind fun amount => ?_
    refine (Placed.alike (.lift (guards_binary .add (.all v) (.all amount)))).bind fun sum => ?_
    exact (Placed.alike_write hid _).bind fun _ => .pure none
  | emit he =>
    intro base frame?
    exact Leads.single (.of_alike (Placed.alike_emit hcall he) (hstart base frame? _ _))
  | frameSet hname he =>
    intro base frame?
    exact Leads.single (.of_alike (Placed.alike_frameSet hcall hname he) (hstart base frame? _ _))
  | ret he =>
    intro base frame?
    refine Leads.single (.of_alike (Placed.alike ?_) (hstart base frame? _ _))
    exact (he.grows hcall r).bind fun c => .pure (some c)
  | pass => exact fun base frame? => Leads.single (.of_alike (.pure none) (hstart base frame? _ _))
  | branch he _ _ ih ih' =>
    intro base frame?
    refine Leads.single (.after (hstart base frame? _ _) (Placed.alike (he.grows hcall r))
      fun c => ?_)
    refine .after (hstart base frame? _ _) (Placed.alike (hvalue c)) fun v => ?_
    rintro _ w ⟨rfl, hw⟩
    rw [outcome_get_bind]
    split
    · exact ih base frame? w w ⟨rfl, hw⟩
    · exact ih' base frame? w w ⟨rfl, hw⟩
  | @loop buffer paths target source body htarget he _ ih =>
    intro base frame?
    refine Leads.single (.after (hstart base frame? _ _) (Placed.alike (he.grows hcall r))
      fun c => ?_)
    refine .after (hstart base frame? _ _) (Placed.alike (hvalue c)) fun v => ?_
    refine Leads.runLoop_always (fun _ hw => hw.working)
      (fun it => Placed.alike (.lift (guards_iteration_next (.all it)))) (fun u => ?_) limit v
    refine .after (hstart base frame? _ _) ?_ fun _ => ih base frame?
    unfold assignTarget
    split
    · exact Placed.alike_write (htarget _ (by simp [Target.assigned])) _
    · refine (Placed.alike_write (htarget _ (by simp [Target.assigned])) _).bind fun _ => ?_
      exact Placed.alike_write (htarget _ (by simp [Target.assigned])) _
    · exact .fail _
  | @define buffer paths name params body hname hparams hbody _ =>
    intro base frame?
    refine Leads.single (.of_alike ?_ (hstart base frame? _ _))
    have hclosure (w : World) (c : Cell) :
        (closureIn w r name params [(.frame, c)] (printed .macroOutput body)).Tame builtin := by
      have hframe : .frame ∈ params ++ [.frame] := List.mem_append_right _ List.mem_cons_self
      refine hbody.closure rfl hframe (fun id hid => ?_) rfl rfl
      rcases List.mem_append.1 hid with hid | hid
      · exact Ident.isCore_of_isPlain (hparams id hid)
      · rw [List.mem_singleton.1 hid]
        rfl
    have hfunction : Grows builtin (read r .frame >>= fun c => get >>= fun w => newFunction
        (.closure (closureIn w r name params [(.frame, c)] (printed .macroOutput body)))) := by
      refine (grows_read r .frame).bind fun c => .get_bind fun w _ => grows_newFunction ?_
      rintro _ ⟨⟩
      exact hclosure w c
    have hexec : exec call limit r
        (.define name params [(.frame, .name .frame)] (printed .macroOutput body)) =
        (read r .frame >>= fun c => get >>= fun w => newFunction
          (.closure (closureIn w r name params [(.frame, c)] (printed .macroOutput body)))) >>=
        fun f => write r name (.value f) >>= fun _ => pure none := by
      simp [exec, captureAll, eval]
    rw [hexec]
    exact (Placed.alike hfunction).bind fun f => (Placed.alike_write hname _).bind fun _ =>
      .pure none
  | framed hown _ ih => exact fun base frame? => passes_framed hcall hg hown ih

/-! ## Calls -/

/-- A function that has made its buffer. -/
theorem Closure.Tame.placed {c : Closure} (hc : c.Tame builtin) (hw : w.Tame builtin)
    (args : List Cell) (hown : buffer ∈ c.owned) (hbuffer : buffer.isBuffer = true) :
    Placed builtin w w.activations.size buffer w.lists.size
      ((c.activation args).vars.find? .frame) []
      { w with
        lists := w.lists.push #[]
        activations := (w.activations.push (c.activation args)).modify w.activations.size
          (·.assign buffer (.value (.list w.lists.size))) } := by
  have hactivation : ((w.activations.push (c.activation args)).modify w.activations.size
      (·.assign buffer (.value (.list w.lists.size)))).get? w.activations.size =
      some ((c.activation args).assign buffer (.value (.list w.lists.size))) := by
    rw [get?_modify_self, get?_push_self]
    rfl
  have htame := (hw.pushActivation (a := c.activation args) hc.owned).assign w.activations.size
    buffer (.value (.list w.lists.size))
  refine ⟨⟨htame.congr rfl rfl rfl rfl, ?_, hbuffer, Nat.le_refl _, Nat.le_refl _, _, hactivation,
    hown, find?_insert_self _ _ _⟩, ⟨_, hactivation, hc.frame, ?_⟩, forall_mem_nil _⟩
  · exact ⟨⟨(Extends.refl _).push _, .refl _, rfl⟩, .refl _,
      ((Extends.refl _).push _).modify (Nat.le_refl _) _, rfl⟩
  · refine find?_insert_of_ne _ ?_ _
    rintro rfl
    cases hbuffer

namespace Engine

variable {call : Call} (hcall : call.Tame builtin)

section

variable (hg : call.Framing)

include hcall hg

/-- A call of a tame function leaves everything as it was. -/
theorem grows_callClosure (limit : Nat) {c : Closure} (hc : c.Tame builtin) (args : List Cell) :
    Grows builtin (callClosure call limit c args) := by
  intro w hw
  rw [outcome_callClosure]
  split
  · exact ⟨.refl w, hw⟩
  · obtain ⟨buffer, ss, hown, hbuffer, hbody, hss⟩ := hc.body
    have hret : Tame builtin buffer [] (ss ++ [.ret (.joined buffer)]) :=
      hss.append (.ret (.method rfl (.const _) (forall_mem_singleton.2 (.name _))))
    have hplaced := hc.placed hw args hown hbuffer
    have hrun : (execAll call limit w.activations.size c.body).outcome
        (w.activate c args) =
        (execAll call limit w.activations.size (ss ++ [.ret (.joined buffer)])).outcome
        { w with
          lists := w.lists.push #[]
          activations := (w.activations.push (c.activation args)).modify w.activations.size
            (·.assign buffer (.value (.list w.lists.size))) } := by
      rw [hbody, printed, cons_append]
      exact outcome_execAll_cons rfl
    have hpasses := @Tame.passes _ w.activations.size w.lists.size _ _ limit _ _ hret hcall hg
    obtain ⟨hworking, -⟩ := Leads.always_iff.1 (hpasses w _) _ hplaced
    rw [← hrun] at hworking
    rw [outcome_bind]
    rcases hr : (execAll call limit w.activations.size c.body).outcome
      (w.activate c args) with ⟨e | result, u⟩ <;>
      rw [hr] at hworking
    · exact ⟨hworking.grown, hworking.tame⟩
    · have hvalue : Grows builtin (liftM (valueIn (result.getD (.value .none)))) :=
        .lift (looks_valueIn _).guards
      obtain ⟨hgrown, htame⟩ := hvalue u hworking.tame
      exact ⟨hworking.grown.trans hgrown, htame⟩

theorem grows_callFunction (limit : Nat) (q : Ref) (args : List Cell) :
    Grows builtin (callFunction call limit q args) := by
  refine .get_bind fun w hw => ?_
  split
  next c hc => exact grows_callClosure hcall hg limit (hw.functions q c hc) args
  next env context name next? _ =>
    cases next? with
    | none => exact (Grows.lift (looks_checkArity _ _ _).guards).bind fun _ => .fail _
    | some block =>
      refine (Grows.lift (looks_checkArity _ _ _).guards).bind fun _ => ?_
      exact (grows_newFrame {}).bind fun frame => hcall.enter block env context frame
  next => exact .fail _

end

end Engine

/-! ## Loading -/

namespace Eval

theorem grows_loadModule {m} (hm : ∀ f ∈ m.functions, f.Tame builtin) :
    Grows builtin (loadModule m) := by
  refine .modifyGet fun w hw => ⟨⟨.refl _, .refl _, (Extends.refl _).push _, rfl⟩, ?_⟩
  have hpush := hw.pushActivation (a :=
    { owned := m.functions.map (·.name)
      vars := ofList ((functionValues w.functions.size m.functions).map
        fun held => (held.1, .value held.2)) }) fun id hid => by
    obtain ⟨f, hf, rfl⟩ := mem_map.1 hid
    exact (hm f hf).name
  refine ⟨fun q c hq => ?_, hpush.activations, hw.loader, hw.filters, hw.records⟩
  rcases get?_append_eq_some hq with hq | hc
  · exact hw.functions q c hq
  · obtain ⟨f, hf, hc⟩ := mem_map.1 hc
    cases hc
    exact (hm f hf).closure _

/-- Loading a tame tree changes nothing that is there. -/
theorem grows_loadUnit {tree} (htree : tree.Tame builtin) (name? file? : Option String) :
    Grows builtin (loadUnit tree name? file?) := by
  unfold loadUnit
  rcases hcompile : ({} : Compiler).compile tree false name? file? with ⟨e | m, c⟩
  · exact fun w hw => ⟨.refl w, hw⟩
  · refine (Grows.ofExcept _).bind_of_ok fun _ _ _ _ hm => ?_
    cases hm
    refine (grows_loadModule (tame_of_compile hcompile htree)).bind fun entries => ?_
    refine (Grows.ofExcept _).bind fun unit => ?_
    exact (Grows.lift (guards_note _)).bind fun _ => .pure _

theorem grows_loadTemplate {tree} (htree : tree.Tame builtin) (name? file? : Option String) :
    Grows builtin (loadTemplate tree name? file?) :=
  (grows_loadUnit htree name? file?).bind fun _ => grows_newTemplate _

theorem grows_getTemplate (name : Value) (eager : Bool) :
    Grows builtin (getTemplate name eager) := by
  refine .get_bind fun w hw => ?_
  split
  · exact (Grows.lift (looks_textOf name).guards).bind fun _ => .fail _
  next loader hloader =>
    refine .lift_bind (Loader.guards_source name loader) fun _ found hfound => ?_
    refine (Grows.lift (looks_shownOf name).guards).bind fun _ => ?_
    refine (Grows.lift (guards_note _)).bind fun _ => ?_
    exact grows_loadTemplate (hw.loader loader hloader _ hfound) _ _

end Eval

/-! ## The engine -/

namespace Engine

variable {call : Call}

section

variable (hcall : call.Tame builtin)

include hcall

theorem grows_runEntry (t : Template) (entry : Value) (context frame : Ref) :
    Grows builtin (runEntry call t entry context frame) :=
  grows_inRender _ (grows_reporting _ (hcall.enter entry .environment context frame))

theorem grows_render (r : Ref) (vars : List (String × Value)) (frame? : Option Ref) :
    Grows builtin (render call r vars frame?) := by
  refine .get_bind fun w _ => (Grows.lift (looks_checkAlive _).guards).bind fun _ => ?_
  refine Grows.bind (.get_bind fun _ _ => grows_newContext _) fun context => ?_
  exact (grows_newFrame _).bind fun frame => grows_runEntry hcall _ _ context frame

theorem grows_getModule (r : Ref) : Grows builtin (getModule call r) := by
  refine .get_bind fun w _ => (Grows.lift (looks_checkAlive _).guards).bind fun _ => ?_
  refine Grows.bind (.get_bind fun _ _ => grows_newContext _) fun context => ?_
  refine (grows_newFrame _).bind fun frame => ?_
  refine (grows_runEntry hcall _ _ context frame).bind fun _ => ?_
  exact .lift (guards_exportsDict context)

theorem grows_callTemplate (r : Ref) (field : Attr) (args : List Value) :
    Grows builtin (callTemplate call r field args) := by
  unfold callTemplate
  split
  · exact grows_render hcall r [] none
  · exact .get_bind fun _ _ => grows_render hcall r _ none
  · exact grows_getModule hcall r
  · exact .fail _

end

theorem grows_callHelper (field : Attr) (args : List Value) :
    Grows builtin (callHelper field args) := by
  refine (Grows.lift (looks_checkHelper _ _).guards).bind fun _ => ?_
  split
  · exact .lift (guards_member (.all _) (.all _))
  · exact .lift (guards_toText (.all _))
  · exact (Grows.lift (looks_isMacro _).guards).bind fun _ => .pure _
  · exact .lift (guards_iterItems (.all _))
  · refine (Grows.lift (looks_textOf _).guards).bind fun _ => ?_
    exact (Grows.lift (looks_shownOf _).guards).bind fun _ => .fail _
  · refine .get_bind fun _ _ => (Grows.lift (looks_checkArity _ _ _).guards).bind fun _ => ?_
    exact grows_newMacro _
  · exact .lift (guards_oneArgument _ (fun _ _ => .all _) fun v _ => guards_floor v)
  · exact .lift (guards_arithmetic _ _ _ _)
  · exact .fail _

theorem grows_callContext (r : Ref) (field : Attr) (args : List Value) :
    Grows builtin (callContext r field args) := by
  unfold callContext
  split
  · exact (grows_modifyContext r _).bind fun _ => .pure _
  · exact (grows_modifyContext r _).bind fun _ => .pure _
  · exact (grows_modifyContext r _).bind fun _ => .pure _
  · exact .lift (guards_getBlock r _)
  · exact .get_bind fun _ _ => .lift (guards_newDict (.all _))
  · exact .fail _

/-- The methods of the machinery that leave lists, dictionaries and frames alone. -/
theorem grows_callMethod (hcall : call.Tame builtin) (self : Cell) {field}
    (hfield : field.isCalm = true) (args : List Cell) :
    Grows builtin (callMethod call self field args) := by
  have hvalues (cells : List Cell) : Grows builtin (liftM (valuesIn cells)) :=
    .lift (Operation.Looks.guards (.mapM looks_valueIn cells))
  unfold callMethod
  split
  · exact (grows_resolve _ _ _).bind fun _ => .pure _
  · exact (hvalues _).bind fun _ => (grows_callHelper _ _).bind fun _ => .pure _
  · exact (grows_getSuper _ _ _ _).bind fun _ => .pure _
  · exact (hvalues _).bind fun _ => (grows_callContext _ _ _).bind fun _ => .pure _
  · exact (grows_newFrame _).bind fun _ => .pure _
  · exact Grows.bind (.get_bind fun _ _ => .pure _) fun _ => .pure _
  · cases hfield
  · exact (hvalues _).bind fun _ => (grows_getTemplate _ _).bind fun _ => .pure _
  · exact (Grows.lift (guards_getFilter _)).bind fun _ => .pure _
  · exact .get_bind fun _ _ => (grows_render hcall _ _ _).bind fun _ => .pure _
  · exact (hvalues _).bind fun _ => (grows_callTemplate hcall _ _ _).bind fun _ => .pure _
  · exact (Grows.lift (guards_joinWith _ (.all _))).bind fun _ => .pure _
  · cases hfield
  · exact .fail _

section

variable (hcall : call.Tame builtin) (hg : call.Framing)

include hcall hg

theorem grows_applyEntry (limit : Nat) (entry env : Value) (context frame : Ref) :
    Grows builtin (applyEntry call limit entry env context frame) := by
  unfold applyEntry
  split
  · exact grows_callFunction hcall hg limit _ _
  · refine .ite ?_ (.lift (guards_newText _))
    refine (grows_getSuper _ _ _ _).bind_of_ok fun _ next _ _ hnext => ?_
    cases hnext
    refine (hcall.value (.inr (.inr (.inr ⟨_, rfl⟩)))).bind fun inner => ?_
    exact (Grows.lift (looks_textOf inner).guards).bind fun _ => .lift (guards_newText _)
  · exact .fail _

variable {args : List Value}

omit hcall hg in
/-- A macro takes fewer arguments than an entry point. -/
theorem grows_callMacro (r : Ref) (h : args.length = 4) :
    Grows builtin (callMacro call r args) := by
  unfold callMacro
  rw [h]
  exact fun w hw => ⟨.refl w, hw⟩

omit hcall hg in
theorem Harmless.method {kind self name} (h : Harmless (.method kind self name) args) :
    name = "join" ∨ 4 ≤ args.length := by
  rcases h with h | ⟨_, h⟩ | ⟨_, _, h⟩ | ⟨_, h⟩
  · exact .inr (Nat.le_of_eq h.symm)
  · cases h
  · cases h
    exact .inl rfl
  · cases h

/-- Calls that change no list and no dictionary. -/
theorem grows_apply (limit : Nat) {f} (h : Harmless f args) :
    Grows builtin (apply call limit f args) := by
  unfold apply
  split
  · exact grows_callFunction hcall hg limit _ _
  · rcases h with h | ⟨_, h⟩ | ⟨_, _, h⟩ | ⟨_, h⟩
    · exact grows_callMacro _ h
    all_goals cases h
  · exact .lift (HostFn.guards_run _ fun _ _ => .all _)
  · exact BuiltinFilter.grows_apply hcall _ _
  · exact .lift (guards_unboundMethod _ (fun _ _ => .all _) fun _ => Harmless.method h)
  · exact .lift (guards_method (.all _) (fun _ _ => .all _) fun _ =>
      (Harmless.method h).imp_right Nat.le_of_succ_le)
  · exact grows_callTemplate hcall _ _ _
  · exact .fail _

end

theorem tame_call (fuel : Nat) : (Engine.call fuel).Tame builtin := by
  induction fuel with
  | zero => exact ⟨fun _ => .throw _, fun _ _ _ _ => .throw _, fun _ _ _ _ => .throw _,
      fun _ _ _ => .inl rfl⟩
  | succ fuel ih =>
    have hg := framing_call fuel
    exact ⟨fun h => grows_apply ih hg fuel h, grows_applyEntry ih hg fuel,
      fun self _ args h => grows_callMethod ih self h args, fun _ _ _ => .inr ⟨_, rfl⟩⟩

end Engine

/-- A state in which no template has been loaded is tame if its environment is. -/
theorem World.tame_of_new (hfunctions : w.functions.size = 0)
    (hactivations : w.activations.size = 0) (hrecords : w.records.size = 0)
    (hloader : ∀ l, w.env.loader? = some l → ∀ tree ∈ l.trees, tree.Tame builtin)
    (hfilters : ∀ name v, builtin name → w.env.filters.find? name = some v → ∃ b, v = .filter b) :
    w.Tame builtin where
  functions q c hq := absurd (get?_eq_some_lt hq) (by omega)
  activations r a ha := absurd (get?_eq_some_lt ha) (by omega)
  loader := hloader
  filters := hfilters
  records r t ht := absurd (get?_eq_some_lt ht) (by omega)

/-- A template made of a tame tree is loaded in a tame state, and rendered with any variables:
whether this gives a text or fails, each list and each dictionary that was there has the content it
had, and the state is tame again. -/
theorem render_keeps_inputs {w : World} (hw : w.Tame builtin) {tree : Node}
    (htree : tree.Tame builtin) (name? file? : Option String) (vars : List (String × Value))
    (fuel : Nat) :
    let w' := ((loadTemplate tree name? file? >>= fun t =>
      Engine.render (Engine.call fuel) t vars none).outcome w).2
    (∀ l < w.lists.size, w'.lists.get? l = w.lists.get? l) ∧
      (∀ d < w.dicts.size, w'.dicts.get? d = w.dicts.get? d) ∧ w'.Tame builtin := by
  have hgrows : Grows builtin (loadTemplate tree name? file? >>= fun t =>
      Engine.render (Engine.call fuel) t vars none) :=
    (grows_loadTemplate htree name? file?).bind fun t =>
      Engine.grows_render (Engine.tame_call fuel) t vars none
  obtain ⟨hgrown, htame⟩ := hgrows w hw
  exact ⟨hgrown.objects.lists.2, hgrown.objects.dicts.2, htame⟩

/-- A template that prints the rows of a table by a filter and by an included template. -/
def rowPrinter : Node :=
  let pos : Position := {}
  .root pos [.loop pos (.symbol pos "row") (.symbol pos "table")
    (.sequence pos [.output pos [.filter pos (.symbol pos "join") (some [.symbol pos "row"])],
      .inclusion pos (.literal pos (.str "row"))])]

/-- A state with a table that is reached through a global dictionary, and a template for its
rows. -/
def tableWorld : World :=
  let pos : Position := {}
  { lists := (push {} #[.ofInt 1, .ofInt 2]).push #[.list 0]
    dicts := push {} (.ofEntries [(.ofText "rows", .list 1)])
    env :=
      { loader? := some (.dict [("row", .root pos [.output pos [.symbol pos "row"]])])
        filters := ofList [("join", .filter .join)]
        globals := ofList [("all", .dict 0)] } }

theorem table_rows_keep_table :
    let run := (loadTemplate rowPrinter none none >>= fun t =>
      Engine.render (Engine.call 99) t [("table", .list 1)] none).outcome tableWorld
    tableWorld.Tame (· = "join") ∧ rowPrinter.Tame (· = "join") ∧ run.1.toOption.isSome = true ∧
      (∀ l < tableWorld.lists.size, run.2.lists.get? l = tableWorld.lists.get? l) ∧
      (∀ d < tableWorld.dicts.size, run.2.dicts.get? d = tableWorld.dicts.get? d) ∧
      run.2.Tame (· = "join") := by
  have hw : tableWorld.Tame (· = "join") := by
    refine World.tame_of_new rfl rfl rfl ?_ ?_
    · rintro _ ⟨⟩ _ htree
      obtain rfl := List.mem_singleton.1 htree
      decide +kernel
    · rintro _ v rfl hv
      cases hv
      exact ⟨_, rfl⟩
  have htree : rowPrinter.Tame (· = "join") := by decide +kernel
  refine ⟨hw, htree, by decide +kernel, ?_⟩
  exact render_keeps_inputs hw htree none none [("table", .list 1)] 99

/-- A loop whose target has the name of the loop's record writes the record into what it runs over:
the tree calls nothing, and yet a dictionary that was given gets seven more entries. -/
theorem loop_target_loop_changes_input :
    let pos : Position := {}
    let tree : Node := .root pos [.loop pos (.symbol pos "loop")
      (.array pos [.symbol pos "d"]) (.sequence pos [])]
    let w : World := { dicts := Store.push {} (.ofEntries [(.ofText "x", .ofInt 1)]) }
    let w' := ((loadTemplate tree none none >>= fun t =>
      Engine.render (Engine.call 99) t [("d", .dict 0)] none).outcome w).2
    (∀ n ∈ tree :: tree.descendants, n.CallsNothing fun _ => False) ∧
      (w.dictEntries 0).length = 1 ∧ (w'.dictEntries 0).length = 8 := by
  decide +kernel

end Stencil
