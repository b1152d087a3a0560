import Stencil.Proofs.Balance
import Stencil.Proofs.Ownership

/-!
# Frames after a statement

Balanced code that comes to its end leaves the variable for the frame as it found it, and no frame
that was there before is changed, neither by the code itself nor by the functions, macros, blocks
and templates that it calls. This holds in every orderly state, in which all functions are balanced
and no variable holds the method that binds names in a frame (`stmt_keeps_frames`); the engine keeps
states orderly (`Tidy.kept`).
-/

namespace Stencil

open Script Engine Eval List Store

variable {c : Cell} {field : Attr} {u w : World} {ss : List Stmt} {f : Ref}

variable {α : Type} {base : Store Frame} {fs : Store Function} {acts : Store Activation} {r : Ref}

/-! ## Orderly states -/

/-- The content of a variable is not the method that binds names in a frame. -/
def Cell.Calm (c : Cell) : Prop :=
  ∀ f, c ≠ .method (.frame f) .set

/-- All functions are balanced, and neither they nor variables hold a method that binds names. -/
structure Orderly (fs : Store Function) (acts : Store Activation) : Prop where
  holds {r a id c} : acts.get? r = some a → a.vars.find? id = some c → c.Calm
  closure {q f} : fs.get? q = some (.closure f) →
    .frame ∈ f.owned ∧ (∀ p ∈ f.captured, p.2.Calm) ∧ Balanced false f.body

namespace Orderly

theorem pushFunction (h : Orderly fs acts) {g} (hg : ∀ f, g = .closure f →
      .frame ∈ f.owned ∧ (∀ p ∈ f.captured, p.2.Calm) ∧ Balanced false f.body) :
    Orderly (fs.push g) acts where
  holds := h.holds
  closure {q f} hq := by
    rcases get?_push_eq_some hq with hq | heq
    · exact h.closure hq
    · exact hg f heq.symm

theorem pushActivation (h : Orderly fs acts) {a} (ha : ∀ id c, a.vars.find? id = some c → c.Calm) :
    Orderly fs (acts.push a) where
  holds hr hfind := by
    rcases get?_push_eq_some hr with hr | rfl
    · exact h.holds hr hfind
    · exact ha _ _ hfind
  closure := h.closure

theorem assign (h : Orderly fs acts) (r : Ref) (id : Ident) (hc : c.Calm) :
    Orderly fs (acts.modify r (·.assign id c)) where
  holds {q a i d} hq hfind := by
    by_cases hr : r = q
    · subst hr
      rw [acts.get?_modify_self] at hq
      obtain ⟨b, hb, rfl⟩ := Option.map_eq_some_iff.1 hq
      have hfind : (b.vars.insert id c).find? i = some d := hfind
      by_cases hi : i = id
      · subst hi
        rw [b.vars.find?_insert_self] at hfind
        exact Option.some.inj hfind ▸ hc
      · rw [b.vars.find?_insert_of_ne hi] at hfind
        exact h.holds hb hfind
    · rw [acts.get?_modify_of_ne _ hr] at hq
      exact h.holds hq hfind
  closure := h.closure

end Orderly

/-- An orderly state with the first frames those of `base`. -/
structure Tidy (base : Store Frame) (w : World) : Prop where
  frames : Extends base w.frames
  orderly : Orderly w.functions w.activations

/-- The methods that may be called: names are bound in later frames only. -/
def fillable (base : Store Frame) : Cell → Attr → Prop :=
  fun self field => ∀ f, self = .frame f → field = .set → base.size ≤ f

namespace Tidy

theorem closed : Closed (Always (Tidy base)) anyEntry (fillable base) where
  twin h := ⟨_, h.1⟩
  rest h _ _ _ := ⟨by rw [h.1], h.2.frames, h.2.orderly⟩
  pushFrame h f := ⟨by rw [h.1], h.2.frames.push f, h.2.orderly⟩
  setFrame h r f hr _ := ⟨by rw [h.1], h.2.frames.set (hr r rfl rfl) f, h.2.orderly⟩
  pushContext h _ _ := ⟨by rw [h.1], h.2.frames, h.2.orderly⟩
  entryFresh _ _ _ _ _ := trivial
  entryRest _ _ _ _ _ := trivial
  setContext h _ _ _ := ⟨by rw [h.1], h.2.frames, h.2.orderly⟩
  addBlock h _ _ _ _ := ⟨by rw [h.1], h.2.frames, h.2.orderly⟩
  pushSuper h _ _ _ _ _ :=
    ⟨by rw [h.1], h.2.frames, h.2.orderly.pushFunction fun _ hf => nomatch hf⟩
  entrySuper _ _ _ _ _ _ _ := trivial

end Tidy

/-! ## The variable for the frame -/

/-- The activation `r` owns the variable for the frame, and the variable holds `frame?`. -/
def HoldsFrame (r : Ref) (frame? : Option Cell) (acts : Store Activation) : Prop :=
  ∃ a, acts.get? r = some a ∧ .frame ∈ a.owned ∧ a.vars.find? .frame = frame?

namespace HoldsFrame

variable {frame? : Option Cell}

theorem of_extends {acts'} (h : HoldsFrame r frame? acts) (he : Extends acts acts') :
    HoldsFrame r frame? acts' := by
  obtain ⟨a, ha, hown, hfind⟩ := h
  exact ⟨a, (he.2 r (get?_eq_some_lt ha)).trans ha, hown, hfind⟩

theorem assign (h : HoldsFrame r frame? acts) (c : Cell) :
    HoldsFrame r (some c) (acts.modify r (·.assign .frame c)) := by
  obtain ⟨a, ha, hown, -⟩ := h
  refine ⟨a.assign .frame c, ?_, hown, a.vars.find?_insert_self .frame c⟩
  rw [acts.get?_modify_self, ha]
  rfl

theorem assign_of_ne (h : HoldsFrame r frame? acts) {id} (hid : id ≠ .frame) (c : Cell) :
    HoldsFrame r frame? (acts.modify r (·.assign id c)) := by
  obtain ⟨a, ha, hown, hfind⟩ := h
  refine ⟨a.assign id c, ?_, hown, ?_⟩
  · rw [acts.get?_modify_self, ha]
    rfl
  · exact (a.vars.find?_insert_of_ne (Ne.symm hid) c).trans hfind

theorem outcome_read (h : HoldsFrame r frame? w.activations) : (read r .frame).outcome w =
      (frame?.elim (.error (.fault (.unboundLocal .frame))) .ok, w) := by
  obtain ⟨a, ha, hown, rfl⟩ := h
  have howner : owner? w .frame (r + 1) r = some a := by
    simp only [owner?, ha, contains_iff_mem.2 hown, if_true]
  unfold Script.read
  rw [outcome_get_bind, howner]
  cases hfind : a.vars.find? .frame with
  | none => simp [hfind, ha, hown]
  | some c => simp [hfind]

/-- A method of the variable for the frame is found only in a frame. -/
theorem outcome_method (h : HoldsFrame r frame? w.activations) (call : Call)
    (hfield : field ∈ [.push, .pop, .set]) :
    (∃ e, (eval call r (.attr (.name .frame) field)).outcome w = (.error e, w)) ∨
      ∃ f, frame? = some (.frame f) ∧
        (eval call r (.attr (.name .frame) field)).outcome w =
          (.ok (.method (.frame f) field), w) := by
  show (∃ e, (read r .frame >>= fun c => fieldOf c field).outcome w = (.error e, w)) ∨ ∃ f, _ ∧
    (read r .frame >>= fun c => fieldOf c field).outcome w = (.ok (.method (.frame f) field), w)
  cases frame? with
  | none => exact .inl ⟨_, outcome_bind_of_error h.outcome_read _⟩
  | some c =>
    rw [outcome_bind_of_ok h.outcome_read]
    simp only [mem_cons, not_mem_nil, or_false] at hfield
    cases c with
    | frame f => exact .inr ⟨f, rfl, by rcases hfield with rfl | rfl | rfl <;> rfl⟩
    | value v => exact .inl (by rcases hfield with rfl | rfl | rfl <;> cases v <;> exact ⟨_, rfl⟩)
    | _ => exact .inl (by rcases hfield with rfl | rfl | rfl <;> exact ⟨_, rfl⟩)

end HoldsFrame

/-! ## Calls -/

/-- What the method of a frame, a context or a value gives is a value or a frame. -/
theorem Engine.result_callMethod {call self args}
    (h : (callMethod call self field args).outcome w = (.ok c, u)) :
    (∃ v, c = .value v) ∨ ∃ f, c = .frame f := by
  have hvalue {x : Eval Value} {w : World}
      (h : (x >>= fun v => pure (Cell.value v)).outcome w = (.ok c, u)) :
      (∃ v, c = .value v) ∨ ∃ f, c = .frame f := by
    obtain ⟨v, _, -, h⟩ := outcome_bind_eq_ok h
    cases h
    exact .inl ⟨v, rfl⟩
  unfold callMethod at h
  split at h
  · exact hvalue h
  · obtain ⟨_, _, -, h⟩ := outcome_bind_eq_ok h
    exact hvalue h
  · exact hvalue h
  · obtain ⟨_, _, -, h⟩ := outcome_bind_eq_ok h
    exact hvalue h
  · obtain ⟨f, _, -, h⟩ := outcome_bind_eq_ok h
    cases h
    exact .inr ⟨f, rfl⟩
  · obtain ⟨f?, _, -, h⟩ := outcome_bind_eq_ok h
    cases h
    cases f? with
    | none => exact .inl ⟨_, rfl⟩
    | some f => exact .inr ⟨f, rfl⟩
  · obtain ⟨_, _, -, h⟩ := outcome_bind_eq_ok h
    cases h
    exact .inl ⟨_, rfl⟩
  · obtain ⟨_, _, -, h⟩ := outcome_bind_eq_ok h
    obtain ⟨_, _, -, h⟩ := outcome_bind_eq_ok h
    cases h
    exact .inl ⟨_, rfl⟩
  · exact hvalue h
  · obtain ⟨_, _, -, h⟩ := outcome_bind_eq_ok h
    exact hvalue h
  · obtain ⟨_, _, -, h⟩ := outcome_bind_eq_ok h
    exact hvalue h
  · exact hvalue h
  · exact hvalue h
  · cases h

/-- Calls that keep to their own activations, leave frames where they are, and open and close frames
as they should. -/
structure Call.Framing (call : Call) : Prop where
  steady : call.Steady
  parents (base : Store Frame) : CallsAlike (Framed base) anyEntry anyMethod call call
  calm {self c field args w u} : (call.method self field args).outcome w = (.ok c, u) → c.Calm
  push {f : Ref} {c w u} : (call.method (.frame f) .push []).outcome w = (.ok c, u) →
    c = .frame w.frames.size ∧ u = { w with frames := w.frames.push { parent := some f } }
  pop {f : Ref} {c w u} : (call.method (.frame f) .pop []).outcome w = (.ok c, u) →
    c = ((w.frame f).parent.map .frame).getD (.value .none) ∧ u = w

/-- The engine treats frames as it should. -/
theorem Engine.framing_call (fuel : Nat) : (call fuel).Framing where
  steady := steady_call fuel
  parents _ := Framed.kept.callsAlike_call (fun _ => trivial) fuel
  calm h f := by
    cases fuel with
    | zero => cases h
    | succ fuel =>
      rcases result_callMethod h with ⟨v, rfl⟩ | ⟨g, rfl⟩
      · exact Cell.noConfusion
      · exact Cell.noConfusion
  push h := by
    cases fuel with
    | zero => cases h
    | succ fuel =>
      cases h
      exact ⟨rfl, rfl⟩
  pop h := by
    cases fuel with
    | zero => cases h
    | succ fuel =>
      cases h
      exact ⟨rfl, rfl⟩

/-! ## Running balanced code -/

/-- A tidy state, and what the variable for the frame holds in the activation `r`. -/
def Settled (base : Store Frame) (r : Ref) (frame? : Option Cell) (w : World) : Prop :=
  Tidy base w ∧ HoldsFrame r frame? w.activations

namespace Settled

variable {frame? : Option Cell} {call call' : Call} {limit : Nat}

theorem tidy {w'} (h : Always (Settled base r frame?) w w') : Always (Tidy base) w w' :=
  ⟨h.1, h.2.1⟩

/-- What an identifier holds is calm. -/
theorem calm_of_read {id} (h : Tidy base w) (hread : (read r id).outcome w = (.ok c, u)) :
    c.Calm := by
  rcases held_or_core_of_read hread with ⟨q, a, -, ha, hfind⟩ | ⟨f, rfl⟩
  · exact h.orderly.holds ha hfind
  · exact fun _ => Cell.noConfusion

/-- A settled state in which the variable for the frame holds a later frame `g` inside `f`. -/
def Opened (base : Store Frame) (r f g : Ref) (w : World) : Prop :=
  Settled base r (some (.frame g)) w ∧ base.size ≤ g ∧ g < w.frames.size ∧
    (w.frame g).parent = some f

theorem alike_read (id : Ident) : Alike (Always (Settled base r frame?)) (read r id) (read r id) :=
  Always.alike_iff.2 fun w hw => by rwa [snd_outcome_read]

section

variable (hg : call.Framing)
  (hc : CallsAlike (Always (Tidy base)) anyEntry (fillable base) call call')

include hg hc

theorem callsAlike :
    CallsAlike (Always (Settled base r frame?)) anyEntry (fillable base) call call' :=
  hc.always_and (fun _ _ _ h _ he => HoldsFrame.of_extends h he) hg.steady.evolves

/-- Calm code changes neither the variable for the frame nor a frame. -/
theorem conducts {defines}
    (hdefines : ∀ own body, defines own body → .frame ∈ own ∧ Balanced false body) :
    Conducts (Always (Settled base r frame?)) anyEntry (fillable base) call call' r
      (calmPolicy defines) Cell.Calm where
  toClosed := Tidy.closed.always_and_activations (HoldsFrame r frame?)
  toCallsAlike := callsAlike hg hc
  heldValue _ _ := Cell.noConfusion
  heldMethod hfield _ f h := hfield (by cases h; rfl)
  heldResult self field args hpermit :=
    ((callsAlike hg hc).method self field args hpermit).gets fun _ _ _ _ => hg.calm
  allowsMethod h f hself hfield := (h f (by rw [hself, hfield])).elim
  allowsEntry _ _ _ _ _ := trivial
  read id _ := (alike_read id).gets fun _ _ _ hw => calm_of_read hw.1
  write id c hid hcalm := Always.alike_iff.2 fun w hw =>
    ⟨⟨hw.1.frames, hw.1.orderly.assign r id hcalm⟩, hw.2.assign_of_ne hid c⟩
  define name params captured body hbody hcaptured := Always.alike_iff.2 fun w hw => by
    refine ⟨⟨hw.1.frames, hw.1.orderly.pushFunction ?_⟩, hw.2⟩
    rintro f ⟨⟩
    obtain ⟨hown, hbalanced⟩ := hdefines _ _ hbody
    exact ⟨mem_eraseDups.2 (mem_append_left _ hown), hcaptured, hbalanced⟩
  whole _ _ h := h.elim

/-! ### Opening and closing a frame -/

omit hg hc in
theorem gets_frameMethod (hfield : field ∈ [.push, .pop, .set]) :
    Gets (Always (Settled base r frame?))
      (fun c => ∃ f, frame? = some (.frame f) ∧ c = .method (.frame f) field)
      (eval call r (.attr (.name .frame) field)) (eval call' r (.attr (.name .frame) field)) := by
  rintro _ w ⟨rfl, hw⟩
  show Agree _ _ _ ((eval call r (.attr (.name .frame) field)).outcome w)
  obtain ⟨e, he⟩ | ⟨f, hf, hmethod⟩ := hw.2.outcome_method call hfield
  · rw [he]
    exact .error ⟨rfl, hw⟩
  · rw [hmethod]
    exact .ok ⟨rfl, ⟨f, hf, rfl⟩, rfl, hw⟩

/-- A name is bound in a later frame. -/
theorem alike_frameSet (hf : base.size ≤ f) (name : String) {e} (he : e.Obeys calm) :
    Alike (Always (Settled base r (some (.frame f)))) (exec call limit r (.frameSet name e))
      (exec call' limit r (.frameSet name e)) := by
  have hconduct : Conducts (Always (Settled base r (some (.frame f)))) anyEntry (fillable base) call
      call' r (calmPolicy fun _ _ => False) Cell.Calm := conducts hg hc fun _ _ => False.elim
  have heval : Alike (Always (Settled base r (some (.frame f))))
      (eval call r (.call (.attr (.name .frame) .set) [.text name, e]))
      (eval call' r (.call (.attr (.name .frame) .set) [.text name, e])) := by
    refine (gets_frameMethod (by simp)).bind_alike ?_
    rintro _ ⟨f, ⟨⟩, rfl⟩
    refine (hconduct.evalAll [.text name, e] ⟨trivial, he, trivial⟩).bind_alike fun cells _ => ?_
    refine (callsAlike hg hc).method (.frame f) .set cells ?_
    rintro _ ⟨⟩ -
    exact hf
  exact heval.bind fun _ => Alike.pure none

omit hg hc in
theorem assign (h : Settled base r frame? w) (hcalm : c.Calm) : Settled base r (some c)
      (w.assign r .frame c) :=
  ⟨⟨h.1.frames, h.1.orderly.assign r .frame hcalm⟩, h.2.assign c⟩

/-- The variable for the frame is assigned what a method of the frame in it gives. -/
theorem agree_assignFrame (hw : Settled base r frame? w) (hfield : field = .push ∨ field = .pop)
    {post} (htidy : ∀ u, post u → Tidy base u)
    (hpost : ∀ f c u, frame? = some (.frame f) →
      (call.method (.frame f) field []).outcome w = (.ok c, u) → Settled base r frame? u →
      post (u.assign r .frame c)) :
    Agree (fun a b u u' => b = a ∧ Always (Tidy base) u u' ∧ (a = none → Always post u u'))
      (Always (Tidy base))
      ((exec call limit r (.assign .frame (.method (.name .frame) field []))).outcome w)
      ((exec call' limit r (.assign .frame (.method (.name .frame) field []))).outcome w) := by
  have hmem : field ∈ [.push, .pop, .set] := by
    rcases hfield with rfl | rfl <;> simp
  have hpermit (f : Ref) : fillable base (.frame f) field := by
    rintro _ - rfl
    rcases hfield with h | h <;> cases h
  have heval : Agree (fun c d u u' => d = c ∧ u' = u ∧
        post (u.assign r .frame c))
      (Always (Tidy base)) ((eval call r (.method (.name .frame) field [])).outcome w)
      ((eval call' r (.method (.name .frame) field [])).outcome w) := by
    have hmethod : Agree (fun c d u u' => d = c ∧ u = w ∧ u' = w ∧
          ∃ f, frame? = some (.frame f) ∧ c = .method (.frame f) field)
        (Always (Tidy base)) ((eval call r (.attr (.name .frame) field)).outcome w)
        ((eval call' r (.attr (.name .frame) field)).outcome w) := by
      show Agree _ _ _ ((eval call r (.attr (.name .frame) field)).outcome w)
      obtain ⟨e, he⟩ | ⟨f, hf, hmethod⟩ := hw.2.outcome_method call hmem
      · rw [he]
        exact .error ⟨rfl, hw.1⟩
      · rw [hmethod]
        exact .ok ⟨rfl, rfl, rfl, f, hf, rfl⟩
    refine hmethod.bind ?_
    rintro _ _ _ _ ⟨rfl, rfl, rfl, f, hf, rfl⟩
    show Agree _ _ ((call.method (.frame f) field []).outcome _)
      ((call'.method (.frame f) field []).outcome _)
    obtain ⟨c, d, u, u', hu, hu', rfl, rfl, hsettled⟩ | ⟨e, u, u', hu, hu', h⟩ :=
      ((callsAlike hg hc).method (.frame f) field [] (hpermit f) _ _ ⟨rfl, hw⟩).results_or_halt
    · rw [hu, hu']
      exact .ok ⟨rfl, rfl, hpost f _ _ hf hu hsettled⟩
    · rw [hu, hu']
      exact .error (tidy h)
  refine heval.bind ?_
  rintro c _ u _ ⟨rfl, rfl, hu⟩
  exact .ok ⟨rfl, ⟨rfl, htidy _ hu⟩, fun _ => ⟨rfl, hu⟩⟩

theorem leads_pushFrame : Leads (Always (Settled base r frame?))
      (Always fun u => ∃ f g, frame? = some (.frame f) ∧ Opened base r f g u) (Always (Tidy base))
      (exec call limit r .pushFrame) (exec call' limit r .pushFrame) := by
  rintro _ w ⟨rfl, hw⟩
  refine agree_assignFrame hg hc hw (.inl rfl) (fun _ ⟨_, _, _, hu⟩ => hu.1.1)
    fun f c u hframe hrun hu => ?_
  obtain ⟨rfl, rfl⟩ := hg.push hrun
  refine ⟨f, w.frames.size, hframe, hu.assign fun _ => Cell.noConfusion, hw.1.frames.1, ?_, ?_⟩
  · exact Nat.lt_of_lt_of_eq (Nat.lt_succ_self _) (w.frames.size_push _).symm
  · simp [World.frame]

theorem leads_popFrame {g : Ref} :
    Leads (Always (Opened base r f g)) (Always (Settled base r (some (.frame f))))
      (Always (Tidy base)) (exec call limit r .popFrame) (exec call' limit r .popFrame) := by
  rintro _ w ⟨rfl, hw, -, -, hparent⟩
  refine agree_assignFrame hg hc hw (.inr rfl) (fun _ hu => hu.1) fun _ c u hframe hrun hu => ?_
  cases hframe
  obtain ⟨rfl, rfl⟩ := hg.pop hrun
  rw [hparent]
  exact hu.assign fun _ => Cell.noConfusion

omit hc in
/-- Statements that run in a frame of their own leave it where it is. -/
theorem passes_opened {g}
    (hss : Passes (Always (Settled base r (some (.frame g)))) (Always (Tidy base))
      (execAll call limit r ss) (execAll call' limit r ss)) :
    Passes (Always (Opened base r f g)) (Always (Tidy base)) (execAll call limit r ss)
      (execAll call' limit r ss) := by
  rintro _ w ⟨rfl, hw, hle, hlt, hparent⟩
  have hframed : Alike (Framed w.frames) (execAll call limit r ss) (execAll call limit r ss) :=
    Runs.execAll Framed.closed (hg.parents _) (Framed.runs r) limit ss fun _ _ => trivial
  have hkeeps := Always.alike_iff.1 hframed w ⟨Nat.le_refl _, fun _ _ => rfl⟩
  obtain ⟨a, b, u, u', hu, hu', rfl, htidy, hsettled⟩ | ⟨e, u, u', hu, hu', h⟩ :=
    (hss w w ⟨rfl, hw⟩).results_or_halt
  · rw [hu] at hkeeps
    rw [hu, hu']
    refine .ok ⟨rfl, htidy, fun hnone => ⟨htidy.1, (hsettled hnone).2, hle, ?_, ?_⟩⟩
    · exact Nat.lt_of_lt_of_le hlt hkeeps.1
    · exact (KeepsParents.parent_eq hkeeps hlt).trans hparent
  · rw [hu, hu']
    exact .error h

/-- Code that opens a frame, runs in it and closes it. -/
theorem passes_framed
    (hss : ∀ g, base.size ≤ g → Passes (Always (Settled base r (some (.frame g))))
      (Always (Tidy base)) (execAll call limit r ss) (execAll call' limit r ss)) :
    Passes (Always (Settled base r frame?)) (Always (Tidy base))
      (execAll call limit r ([.pushFrame] ++ ss ++ [.popFrame]))
      (execAll call' limit r ([.pushFrame] ++ ss ++ [.popFrame])) := by
  rw [append_assoc]
  refine (leads_pushFrame hg hc).single.append ?_
  rintro _ w ⟨rfl, f, g, rfl, hw⟩
  have hinner : Passes (Always (Opened base r f g)) (Always (Tidy base))
      (execAll call limit r ss) (execAll call' limit r ss) := passes_opened hg (hss g hw.2.1)
  exact hinner.append (leads_popFrame hg hc).single w w ⟨rfl, hw⟩

/-- Balanced code that comes to its end leaves the variable for the frame as it was. -/
theorem passes {own} (h : Balanced own ss) : ∀ {frame? : Option Cell},
    (own = true → ∃ f, frame? = some (.frame f) ∧ base.size ≤ f) →
    Passes (Always (Settled base r frame?)) (Always (Tidy base)) (execAll call limit r ss)
      (execAll call' limit r ss) := by
  have hstart : ∀ {frame? : Option Cell} (w w' : World),
      Always (Settled base r frame?) w w' → Always (Tidy base) w w' := fun _ _ => tidy
  have hcalm {frame? : Option Cell} : Conducts (Always (Settled base r frame?)) anyEntry
      (fillable base) call call' r (calmPolicy fun _ _ => False) Cell.Calm :=
    conducts hg hc fun _ _ => False.elim
  have hdefine {frame? : Option Cell} : Conducts (Always (Settled base r frame?)) anyEntry
      (fillable base) call call' r
      (calmPolicy fun own body => .frame ∈ own ∧ Balanced false body) Cell.Calm :=
    conducts hg hc fun _ _ h => h
  induction h with
  | nil => exact fun _ => .of_alike (Alike.pure none) hstart
  | append _ _ ih ih' =>
    intro frame? hown
    exact Leads.append (ih hown) (ih' hown)
  | calm hs =>
    intro frame? _
    exact Leads.single (.of_alike (hcalm.exec limit _ hs) hstart)
  | frameSet name he =>
    intro frame? hown
    obtain ⟨f, rfl, hf⟩ := hown rfl
    exact Leads.single (.of_alike (alike_frameSet hg hc hf name he) hstart)
  | branch htest _ _ ih ih' =>
    intro frame? hown
    refine Leads.single (.after hstart (hcalm.eval _ htest).alike fun c => ?_)
    refine .after hstart (hcalm.operate _) fun v => ?_
    rintro _ w ⟨rfl, hw⟩
    rw [outcome_get_bind, outcome_get_bind]
    split
    · exact ih hown w w ⟨rfl, hw⟩
    · exact ih' hown w w ⟨rfl, hw⟩
  | loop htarget hsource _ ih =>
    intro frame? hown
    refine Leads.single (.after hstart (hcalm.eval _ hsource).alike fun c => ?_)
    refine .after hstart (hcalm.operate _) fun v => ?_
    refine .runLoop hcalm.toClosed hstart (fun u => ?_) limit v
    exact .after hstart (hcalm.assignTarget htarget u) fun _ => ih hown
  | define hname hcaptured hown hbody _ =>
    intro frame? _
    exact Leads.single (.of_alike (hdefine.exec limit _ ⟨hname, hcaptured, hown, hbody⟩) hstart)
  | framed _ ih =>
    intro frame? _
    exact passes_framed hg hc fun g hg => ih fun _ => ⟨g, rfl, hg⟩

end

end Settled

/-! ## What the engine keeps -/

namespace Tidy

theorem load (h : Tidy base w) {m} (hm : m.IsCompiled) :
    Tidy base ((loadModule m).outcome w).2 where
  frames := h.frames
  orderly := by
    have hpush := h.orderly.pushActivation (a :=
      { owned := m.functions.map (·.name)
        vars := Table.ofList ((functionValues w.functions.size m.functions).map
          fun held => (held.1, .value held.2)) }) fun id c hfind => by
      obtain ⟨p, -, hp⟩ := mem_map.1 (Table.mem_of_find?_ofList hfind)
      cases hp
      exact fun _ => Cell.noConfusion
    refine ⟨hpush.holds, fun {q f} hq => ?_⟩
    rcases get?_append_eq_some hq with hq | hf
    · exact h.orderly.closure hq
    · obtain ⟨g, hg, hf⟩ := mem_map.1 hf
      cases hf
      obtain ⟨hframe, hbody⟩ := balanced_of_isCompiled hm g hg
      exact ⟨mem_eraseDups.2 (mem_append_left _ hframe), forall_mem_nil _, hbody⟩

/-- Everything the engine does keeps states tidy. -/
theorem kept : Kept (Always (Tidy base)) anyEntry (fillable base) fun call _ => call.Framing where
  toClosed := closed
  load := closed.getTemplate (fun m hm => Always.alike_iff.2 fun w hw => hw.load hm)
    fun _ => Always.alike_iff.2 fun w hw => ⟨hw.frames, hw.orderly⟩
  closure {call call'} hc hg limit q f args := by
    refine coupled_callClosure closed (fun _ _ h => h.1) limit f args ?_
    rintro _ w ⟨⟨rfl, hw⟩, hq, hargs⟩
    obtain ⟨hframe, hcaptured, hbody⟩ := hw.orderly.closure hq
    have hgiven : ∀ c ∈ args, c.Calm := by
      rcases hargs with ⟨vs, rfl⟩ | ⟨env, r, frame, rfl, -⟩
      · rintro c hmem
        obtain ⟨v, -, rfl⟩ := mem_map.1 hmem
        exact fun _ => Cell.noConfusion
      · simp [Cell.Calm]
    have hvars : ∀ id c, (f.activation args).vars.find? id = some c → c.Calm := by
      intro id c hfind
      rcases mem_append.1 (Table.mem_of_find?_ofList hfind) with hmem | hmem
      · exact hgiven c (of_mem_zip hmem).2
      · exact hcaptured _ hmem
    have hpasses : Passes
        (Always (Settled base w.activations.size ((f.activation args).vars.find? .frame)))
        (Always (Tidy base)) (execAll call limit w.activations.size f.body)
        (execAll call' limit w.activations.size f.body) :=
      Settled.passes hg hc hbody Bool.noConfusion
    have hsettled : Settled base w.activations.size ((f.activation args).vars.find? .frame)
        (w.activate f args) :=
      ⟨⟨hw.frames, hw.orderly.pushActivation hvars⟩, f.activation args,
        w.activations.get?_push_self _, hframe, rfl⟩
    exact (hpasses _ _ ⟨rfl, hsettled⟩).mono (fun _ _ _ _ h => ⟨h.1, h.2.1⟩) fun _ _ h => h

end Tidy

/-- In an orderly state every function is balanced, and no variable holds a method that binds names
in a frame. -/
abbrev World.Orderly (w : World) : Prop :=
  Stencil.Orderly w.functions w.activations

theorem World.orderly_empty : ({} : World).Orderly where
  holds ha _ := by simp [get?] at ha
  closure hq := by simp [get?] at hq

theorem Engine.orderly_call (fuel : Nat) (base : Store Frame) :
    CallsAlike (Always (Tidy base)) anyEntry (fillable base) (call fuel) (call fuel) :=
  Tidy.kept.callsAlike_call framing_call fuel

/-- Balanced code that comes to its end leaves the variable for the frame as it was, and every frame
that was there binds what it bound. -/
theorem Script.Balanced.keeps_frames {fuel limit : Nat} (h : Balanced false ss) (hw : w.Orderly)
    (hframe : HoldsFrame r (some (.frame f)) w.activations)
    (hrun : (execAll (call fuel) limit r ss).outcome w = (.ok none, u)) :
    HoldsFrame r (some (.frame f)) u.activations ∧
      (∀ g < w.frames.size, u.frames.get? g = w.frames.get? g) ∧ u.Orderly := by
  have hpasses : Passes (Always (Settled w.frames r (some (.frame f))))
      (Always (Tidy w.frames)) (execAll (call fuel) limit r ss)
      (execAll (call fuel) limit r ss) :=
    Settled.passes (framing_call fuel) (orderly_call fuel w.frames) h Bool.noConfusion
  have hagree := hpasses w w ⟨rfl, ⟨Extends.refl _, hw⟩, hframe⟩
  rw [hrun] at hagree
  cases hagree with
  | ok h =>
    obtain ⟨-, -, hsettled⟩ := h
    obtain ⟨-, htidy, hheld⟩ := hsettled rfl
    exact ⟨hheld, htidy.frames.2, htidy.orderly⟩

end Stencil
