import Stencil.Proofs.Activation
import Stencil.Proofs.Library
import Stencil.Proofs.Printing

/-!
# Buffers that nobody else can reach

A state is sealed when nothing in it refers to a list that is not public, except that the variables
for buffers hold such lists, and when all functions print to buffers of their own. `Shields` says of
a computation that it leaves a sealed state sealed, that lists which are not public keep their
content, and that nobody's buffer is exchanged. Everything the engine does apart from running script
functions shields the lists that are not public, if calls do.
-/

namespace Stencil

open Script Eval Store Table World

variable {size : Nat} {a : Activation} {id : Ident} {c : Context}

variable {α β : Type} {P P' : Lists}

/-! ## Sealed states -/

/-- The variables of an activation refer to public lists only, except that those for buffers hold
lists that are not public. -/
structure Activation.Within (P : Lists) (size : Nat) (a : Activation) : Prop where
  plain : ∀ id c, a.vars.find? id = some c → id.isBuffer = false → c.Within P
  buffer : ∀ id c, a.vars.find? id = some c → id.isBuffer = true →
    ∃ l, c = .value (.list l) ∧ l < size ∧ ¬P l

/-- A script function prints to a buffer of its own, and what it has captured refers to public lists
only. -/
structure Closure.Within (P : Lists) (c : Closure) : Prop where
  captured : ∀ p ∈ c.captured, p.1.isBuffer = false ∧ p.2.Within P
  params : ∀ p ∈ c.params, p.isBuffer = false
  prints : ∃ buffer ss, buffer.isBuffer = true ∧ buffer ∈ c.owned ∧ c.body = printed buffer ss ∧
    Prints buffer true ss

/-- What a function object holds refers to public lists only. -/
def Function.Within (P : Lists) : Function → Prop
  | .closure c => c.Within P
  | .superBlock env _ _ next? => env.Within P ∧ MaybeWithin P next?

/-- What is called as an entry point: a function, or nothing where a template has no root. -/
def Value.IsEntry : Value → Prop
  | .function _ | .none => True
  | _ => False

/-- All bindings of a table are functions. -/
def Table.BindsFunctions (t : Table String Value) : Prop :=
  ∀ e ∈ t.entries, ∃ q, e.2 = .function q

/-- Nothing refers to a list that is not public but the variables for buffers. -/
structure World.Sealed (P : Lists) (w : World) : Prop where
  heap : w.toHeap.Within P
  templates : ∀ r t, w.templates.get? r = some t → t.unit.entries.BindsFunctions
  frames : ∀ r (f : Frame), w.frames.get? r = some f → f.vars.Within P
  functions : ∀ q f, w.functions.get? q = some f → f.Within P
  activations : ∀ r a, w.activations.get? r = some a → a.Within P w.lists.size

theorem Closure.Within.mono (h : ∀ l, P l → P' l) {c : Closure} (hc : c.Within P) :
    c.Within P' where
  captured p hp := ⟨(hc.captured p hp).1, (hc.captured p hp).2.mono h⟩
  params := hc.params
  prints := hc.prints

theorem Function.Within.mono (h : ∀ l, P l → P' l) {f : Function} (hf : f.Within P) :
    f.Within P' := by
  cases f with
  | closure c => exact Closure.Within.mono h hf
  | superBlock env context name next? => exact ⟨hf.1.mono h, hf.2.mono h⟩

/-- An activation in which an identifier holds something that is fit for it. -/
theorem Activation.Within.assign (ha : a.Within P size) {c}
    (hplain : id.isBuffer = false → c.Within P)
    (hbuffer : id.isBuffer = true → ∃ l, c = .value (.list l) ∧ l < size ∧ ¬P l) :
    (a.assign id c).Within P size := by
  have hcell {x d} (hd : (a.assign id c).vars.find? x = some d) :
      x = id ∧ d = c ∨ a.vars.find? x = some d := by
    rcases Decidable.em (x = id) with rfl | hne
    · rw [Activation.assign, find?_insert_self] at hd
      exact .inl ⟨rfl, (Option.some.inj hd).symm⟩
    · rw [Activation.assign, find?_insert_of_ne _ hne] at hd
      exact .inr hd
  refine ⟨fun x d hd hx => ?_, fun x d hd hx => ?_⟩
  · obtain ⟨rfl, rfl⟩ | hd := hcell hd
    · exact hplain hx
    · exact ha.plain x d hd hx
  · obtain ⟨rfl, rfl⟩ | hd := hcell hd
    · exact hbuffer hx
    · exact ha.buffer x d hd hx

theorem World.sealed_empty : ({} : World).Sealed fun _ => False where
  heap := by
    refine ⟨⟨fun _ h => h.elim, ?_, ?_, ?_, ?_, ?_⟩, ?_, ?_, ?_, List.forall_mem_nil _,
      List.forall_mem_nil _⟩ <;> intro r x hx <;> simp [get?] at hx
  templates r t ht := by simp [get?] at ht
  frames r f hf := by simp [get?] at hf
  functions q f hf := by simp [get?] at hf
  activations r a ha := by simp [get?] at ha

/-! ## Later states -/

/-- Nobody. -/
def nobody (_ : Ref) : Prop :=
  False

/-- The state `w'` with the public lists `P'` comes later than `w` with `P`. Among the lists that
are not public only those in `E` may have changed, and among the activations only those in `A`; the
variables for buffers hold what they held, and functions, macros and dictionaries are still
there. -/
structure World.Later (A E : Ref → Prop) (P : Lists) (w : World) (P' : Lists) (w' : World) :
    Prop where
  mono : ∀ l, P l → P' l
  size : w.lists.size ≤ w'.lists.size
  hidden : ∀ l, l < w.lists.size → P' l → P l
  kept : ∀ l, l < w.lists.size → ¬P l → ¬E l → w'.lists.get? l = w.lists.get? l
  others : ∀ q, q < w.activations.size → ¬A q → w'.activations.get? q = w.activations.get? q
  own : ∀ q a, w.activations.get? q = some a → ∃ a', w'.activations.get? q = some a' ∧
    a'.owned = a.owned ∧ ∀ id, id.isBuffer = true → a'.vars.find? id = a.vars.find? id
  functions : Extends w.functions w'.functions
  macros : Extends w.macros w'.macros
  dicts : w.dicts.size ≤ w'.dicts.size

namespace World.Later

variable {A E : Ref → Prop} {w w' : World}

/-- No list has changed and no activation that was there. -/
theorem of_extends (hlists : w'.lists = w.lists) (hdicts : w'.dicts = w.dicts)
    (hactivations : Extends w.activations w'.activations)
    (hfunctions : Extends w.functions w'.functions) (hmacros : Extends w.macros w'.macros) :
    Later A E P w P w' where
  mono _ h := h
  size := Nat.le_of_eq (by rw [hlists])
  hidden _ _ h := h
  kept _ _ _ _ := by rw [hlists]
  others q hq _ := hactivations.2 q hq
  own q a ha := ⟨a, (hactivations.2 q (get?_eq_some_lt ha)).trans ha, rfl, fun _ _ => rfl⟩
  functions := hfunctions
  macros := hmacros
  dicts := Nat.le_of_eq (by rw [hdicts])

theorem refl (P : Lists) (w : World) : Later A E P w P w :=
  of_extends rfl rfl (.refl _) (.refl _) (.refl _)

theorem weaken {A' E'} (h : Later A E P w P' w') (hA : ∀ q, q < w.activations.size → A q → A' q)
    (hE : ∀ l, l < w.lists.size → E l → E' l) : Later A' E' P w P' w' :=
  { h with
    kept := fun l hlt hl hE' => h.kept l hlt hl fun he => hE' (hE l hlt he)
    others := fun q hq hA' => h.others q hq fun ha => hA' (hA q hq ha) }

theorem activations_lt (h : Later A E P w P' w') {q} (hq : q < w.activations.size) :
    q < w'.activations.size := by
  obtain ⟨a, ha⟩ := exists_get?_of_lt hq
  obtain ⟨a', ha', -⟩ := h.own q a ha
  exact get?_eq_some_lt ha'

theorem extends_activations (h : Later nobody E P w P' w') :
    Extends w.activations w'.activations := by
  refine ⟨Nat.le_of_not_lt fun hlt => ?_, fun q hq => h.others q hq id⟩
  exact Nat.lt_irrefl _ (h.activations_lt hlt)

theorem trans {P'' w''} (h : Later A E P w P' w') (h' : Later A E P' w' P'' w'') :
    Later A E P w P'' w'' where
  mono l hl := h'.mono l (h.mono l hl)
  size := Nat.le_trans h.size h'.size
  hidden l hlt hl := h.hidden l hlt (h'.hidden l (Nat.lt_of_lt_of_le hlt h.size) hl)
  kept l hlt hl hE := by
    rw [h'.kept l (Nat.lt_of_lt_of_le hlt h.size) (fun hp => hl (h.hidden l hlt hp)) hE]
    exact h.kept l hlt hl hE
  others q hq hA := by rw [h'.others q (h.activations_lt hq) hA, h.others q hq hA]
  own q a ha := by
    obtain ⟨a', ha', howned, hbuffer⟩ := h.own q a ha
    obtain ⟨a'', ha'', howned', hbuffer'⟩ := h'.own q a' ha'
    exact ⟨a'', ha'', howned'.trans howned, fun id hid =>
      (hbuffer' id hid).trans (hbuffer id hid)⟩
  functions := h.functions.trans h'.functions
  macros := h.macros.trans h'.macros
  dicts := Nat.le_trans h.dicts h'.dicts

end World.Later

namespace World.Sealed

variable {w : World}

theorem activation_mono (hw : w.Sealed P) (hmono : ∀ l, P l → P' l) (hsize : w.lists.size ≤ size)
    (hhidden : ∀ l, l < w.lists.size → P' l → P l) {r} (ha : w.activations.get? r = some a) :
    a.Within P' size where
  plain id c hc hid := ((hw.activations r a ha).plain id c hc hid).mono hmono
  buffer id c hc hid := by
    obtain ⟨l, rfl, hlt, hl⟩ := (hw.activations r a ha).buffer id c hc hid
    exact ⟨l, rfl, Nat.lt_of_lt_of_le hlt hsize, fun hp => hl (hhidden l hlt hp)⟩

theorem objects (hw : w.Sealed P) {C : Prop} {o : Objects}
    (hlater : Objects.Later C P w.toObjects P' o) (ho : o.Holds P') :
    { w with toObjects := o }.Sealed P' where
  heap := ⟨ho.within (hlater.exist hw.heap.objects.exist), hw.heap.surroundings.mono hlater.mono⟩
  templates := hw.templates
  frames r f hf := (hw.frames r f hf).mono hlater.mono
  functions q f hf := (hw.functions q f hf).mono hlater.mono
  activations _ _ ha := hw.activation_mono hlater.mono hlater.size hlater.hidden ha

theorem surroundings_congr (hw : w.Sealed P) {s} (hs : s.Within P)
    (htemplates : ∀ r t, s.templates.get? r = some t → t.unit.entries.BindsFunctions)
    (hfunctions : ∀ q f, s.functions.get? q = some f → f.Within P) :
    { w with toSurroundings := s }.Sealed P where
  heap := ⟨hw.heap.objects, hs⟩
  templates := htemplates
  frames := hw.frames
  functions := hfunctions
  activations := hw.activations

theorem functions_congr (hw : w.Sealed P) {functions}
    (h : ∀ q f, functions.get? q = some f → f.Within P) : { w with functions }.Sealed P := by
  refine hw.surroundings_congr ?_ hw.templates h
  exact ⟨hw.heap.surroundings.contexts, hw.heap.surroundings.macros,
    hw.heap.surroundings.templates, hw.heap.surroundings.filters, hw.heap.surroundings.globals⟩

theorem pushFunction (hw : w.Sealed P) {f} (hf : f.Within P) :
    { w with functions := w.functions.push f }.Sealed P := by
  refine hw.functions_congr fun q g hg => ?_
  rcases get?_push_eq_some hg with hg | rfl
  · exact hw.functions q g hg
  · exact hf

theorem appendFunctions (hw : w.Sealed P) {fs} (hfs : ∀ f ∈ fs, f.Within P) :
    { w with functions := w.functions.append fs }.Sealed P := by
  refine hw.functions_congr fun q g hg => ?_
  rcases get?_append_eq_some hg with hg | hg
  · exact hw.functions q g hg
  · exact hfs g hg

theorem setState (hw : w.Sealed P) (state? : Option RenderState) : { w with state? }.Sealed P := by
  refine hw.surroundings_congr ?_ hw.templates hw.functions
  exact ⟨hw.heap.surroundings.contexts, hw.heap.surroundings.macros,
    hw.heap.surroundings.templates, hw.heap.surroundings.filters, hw.heap.surroundings.globals⟩

theorem pushContext (hw : w.Sealed P) (hc : c.Within P) :
    { w with contexts := w.contexts.push c }.Sealed P := by
  refine hw.surroundings_congr ⟨fun r c' hr => ?_, hw.heap.surroundings.macros,
    hw.heap.surroundings.templates, hw.heap.surroundings.filters, hw.heap.surroundings.globals⟩
    hw.templates hw.functions
  rcases get?_push_eq_some hr with hr | rfl
  · exact hw.heap.surroundings.contexts r c' hr
  · exact hc

theorem setContext (hw : w.Sealed P) (r : Ref) (hc : c.Within P) :
    (w.setContext r c).Sealed P := by
  refine hw.surroundings_congr ⟨fun q c' hq => ?_, hw.heap.surroundings.macros,
    hw.heap.surroundings.templates, hw.heap.surroundings.filters, hw.heap.surroundings.globals⟩
    hw.templates hw.functions
  rcases get?_set_eq_some hq with hq | rfl
  · exact hw.heap.surroundings.contexts q c' hq
  · exact hc

theorem pushMacro (hw : w.Sealed P) {m} (hm : m.Within P) :
    { w with macros := w.macros.push m }.Sealed P := by
  refine hw.surroundings_congr ⟨hw.heap.surroundings.contexts, fun r m' hr => ?_,
    hw.heap.surroundings.templates, hw.heap.surroundings.filters, hw.heap.surroundings.globals⟩
    hw.templates hw.functions
  rcases get?_push_eq_some hr with hr | rfl
  · exact hw.heap.surroundings.macros r m' hr
  · exact hm

theorem pushTemplate (hw : w.Sealed P) {t} (ht : t.unit.entries.BindsFunctions) :
    { w with templates := w.templates.push t }.Sealed P := by
  refine hw.surroundings_congr ⟨hw.heap.surroundings.contexts, hw.heap.surroundings.macros,
    fun r t' hr => ?_, hw.heap.surroundings.filters, hw.heap.surroundings.globals⟩
    (fun r t' hr => ?_) hw.functions
  · rcases get?_push_eq_some hr with hr | rfl
    · exact hw.heap.surroundings.templates r t' hr
    · intro e he
      obtain ⟨q, hq⟩ := ht e he
      rw [hq]
      trivial
  · rcases get?_push_eq_some hr with hr | rfl
    · exact hw.templates r t' hr
    · exact ht

theorem frames_congr (hw : w.Sealed P) {frames}
    (h : ∀ r (f : Frame), frames.get? r = some f → f.vars.Within P) :
    { w with frames }.Sealed P where
  heap := hw.heap
  templates := hw.templates
  frames := h
  functions := hw.functions
  activations := hw.activations

theorem frame (hw : w.Sealed P) (r : Ref) : (w.frame r).vars.Within P := by
  unfold World.frame
  cases hr : w.frames.get? r with
  | none => exact List.forall_mem_nil _
  | some f => exact hw.frames r f hr

theorem isEntry_root (hw : w.Sealed P) (r : Ref) : (w.template r).root.IsEntry := by
  unfold Heap.template Template.root
  cases hr : w.templates.get? r with
  | none => trivial
  | some t =>
    cases hroot : t.unit.entries.find? "root" with
    | none => simp only [Option.getD_some, hroot]; trivial
    | some v =>
      obtain ⟨q, rfl⟩ := hw.templates r t hr _ (findIn_mem hroot)
      simp only [Option.getD_some, hroot]
      trivial

theorem lookupFrames (hw : w.Sealed P) (name : String) {v} :
    ∀ {fuel : Nat} {r : Ref}, w.lookupFrames name fuel r = some v → v.Within P := by
  intro fuel
  induction fuel with
  | zero => exact fun h => nomatch h
  | succ fuel ih =>
    intro r h
    rw [World.lookupFrames] at h
    split at h
    next hfound =>
      cases h
      exact (hw.frame r).find? hfound
    next =>
      split at h
      · exact ih h
      · cases h

theorem activations_congr (hw : w.Sealed P) {activations}
    (h : ∀ r a, activations.get? r = some a → a.Within P w.lists.size) :
    { w with activations }.Sealed P where
  heap := hw.heap
  templates := hw.templates
  frames := hw.frames
  functions := hw.functions
  activations := h

theorem pushActivation (hw : w.Sealed P) (ha : a.Within P w.lists.size) :
    { w with activations := w.activations.push a }.Sealed P := by
  refine hw.activations_congr fun r b hb => ?_
  rcases get?_push_eq_some hb with hb | rfl
  · exact hw.activations r b hb
  · exact ha

end World.Sealed

/-! ## Computations that shield what is not public -/

/-- From the state `w`, a computation leaves a sealed state, and changes no list that is not public
but those in `E` and no activations but those in `A`; `Q` holds of its result and the state it
leaves. -/
def Eval.ShieldsAt (A E : Ref → Prop) (P : Lists) (w : World) (Q : Lists → α → World → Prop)
    (x : Eval α) : Prop :=
  ∃ P', Later A E P w P' (x.outcome w).2 ∧ (x.outcome w).2.Sealed P' ∧
    ∀ a, (x.outcome w).1 = .ok a → Q P' a (x.outcome w).2

/-- From a sealed state, a computation leaves a sealed state and changes no list that is not public
and no activations but those in `A`; `Q` holds of its result. -/
def Eval.Shields (A : Ref → Prop) (P : Lists) (Q : Lists → α → Prop) (x : Eval α) : Prop :=
  ∀ w : World, w.Sealed P → ShieldsAt A nobody P w (fun P' a _ => Q P' a) x

namespace Eval.ShieldsAt

variable {A E : Ref → Prop} {w : World} {Q : Lists → α → World → Prop}
  {R : Lists → β → World → Prop} {x : Eval α} {f : α → Eval β}

protected theorem pure (hw : w.Sealed P) {a} (h : Q P a w) : ShieldsAt A E P w Q (pure a) :=
  ⟨P, .refl P w, hw, fun _ hb => by cases hb; exact h⟩

theorem of_ok {a u} (hx : x.outcome w = (.ok a, u)) (hlater : Later A E P w P' u)
    (hu : u.Sealed P') (hQ : Q P' a u) : ShieldsAt A E P w Q x := by
  unfold ShieldsAt
  rw [hx]
  exact ⟨P', hlater, hu, fun _ h => by cases h; exact hQ⟩

theorem of_error {e} (hx : x.outcome w = (.error e, w)) (hw : w.Sealed P) :
    ShieldsAt A E P w Q x := by
  unfold ShieldsAt
  rw [hx]
  exact ⟨P, .refl P w, hw, fun _ h => nomatch h⟩

theorem weaken {A' E' Q'} (hx : ShieldsAt A E P w Q x)
    (hA : ∀ q, q < w.activations.size → A q → A' q) (hE : ∀ l, l < w.lists.size → E l → E' l)
    (h : ∀ P' a u, Later A E P w P' u → Q P' a u → Q' P' a u) : ShieldsAt A' E' P w Q' x := by
  obtain ⟨P', hlater, hw', hQ⟩ := hx
  exact ⟨P', hlater.weaken hA hE, hw', fun a ha => h P' a _ hlater (hQ a ha)⟩

theorem bind (hx : ShieldsAt A E P w Q x)
    (hf : ∀ P' a u, Later A E P w P' u → u.Sealed P' → Q P' a u →
      ShieldsAt A E P' u R (f a)) : ShieldsAt A E P w R (x >>= f) := by
  obtain ⟨P', hlater, hw', hQ⟩ := hx
  unfold ShieldsAt
  rcases hr : x.outcome w with ⟨e | a, u⟩ <;> rw [hr] at hlater hw' hQ
  · rw [outcome_bind_of_error hr]
    exact ⟨P', hlater, hw', fun _ h => nomatch h⟩
  · rw [outcome_bind_of_ok hr]
    obtain ⟨P'', hlater', hw'', hR⟩ := hf P' a u hlater hw' (hQ a rfl)
    exact ⟨P'', hlater.trans hlater', hw'', hR⟩

end Eval.ShieldsAt

namespace Eval.Shields

variable {A : Ref → Prop} {Q : Lists → α → Prop} {R : Lists → β → Prop} {x : Eval α}
  {f : α → Eval β}

protected theorem pure {a} (h : Q P a) : Shields A P Q (pure a) :=
  fun _ hw => .pure hw h

protected theorem fail (e : Fault) : Shields A P Q (fail e : Eval α) :=
  fun w hw => ⟨P, .refl P w, hw, fun _ h => nomatch h⟩

protected theorem throw (e : Halt) : Shields A P Q (throw e : Eval α) :=
  fun w hw => ⟨P, .refl P w, hw, fun _ h => nomatch h⟩

theorem weaken {Q'} (hx : Shields A P Q x) (h : ∀ P' a, Q P' a → Q' P' a) : Shields A P Q' x :=
  fun w hw => (hx w hw).weaken (fun _ _ h => h) (fun _ _ h => h) fun P' a _ _ => h P' a

theorem within (hx : Shields nobody P Q x) : Shields A P Q x :=
  fun w hw => (hx w hw).weaken (fun _ _ h => h.elim) (fun _ _ h => h) fun _ _ _ _ h => h

theorem bind (hx : Shields A P Q x)
    (hf : ∀ P' a, (∀ l, P l → P' l) → Q P' a → Shields A P' R (f a)) :
    Shields A P R (x >>= f) :=
  fun w hw => (hx w hw).bind fun P' a u hlater hu hQ => hf P' a hlater.mono hQ u hu

theorem get_bind {g} (hg : ∀ w : World, w.Sealed P → Shields A P R (g w)) :
    Shields A P R (get >>= g) :=
  fun w hw => hg w hw w hw

theorem ite {c : Prop} [Decidable c] {y} (hx : Shields A P Q x) (hy : Shields A P Q y) :
    Shields A P Q (if c then x else y) := by
  split
  · exact hx
  · exact hy

theorem ofExcept {e} (h : ∀ a, e = .ok a → Q P a) : Shields A P Q (ofExcept e : Eval α) := by
  cases e with
  | ok a => exact Shields.pure (h a rfl)
  | error f => exact Shields.fail f

theorem lift {x : Operation α} (hx : x.Guards False P Q) : Shields A P Q (liftM x) := by
  intro w hw
  obtain ⟨P', hlater, ho, hQ⟩ := hx w.toSurroundings w.toObjects hw.heap.surroundings
    hw.heap.objects.holds
  unfold ShieldsAt
  rw [outcome_lift]
  refine ⟨P', ?_, hw.objects hlater ho, fun a ha => hQ a ?_⟩
  · exact ⟨hlater.mono, hlater.size, hlater.hidden, fun l hlt hl _ => hlater.kept l hlt hl,
      fun _ _ _ => rfl, fun q a ha => ⟨a, ha, rfl, fun _ _ => rfl⟩, .refl _, .refl _, hlater.dicts⟩
  · rcases hr : (x.perform w.toSurroundings w.toObjects).1 with e | b <;> rw [hr] at ha
    · cases ha
    · cases ha
      rfl

theorem looks {x : Operation α} (hx : x.Looks) : Shields A P Lists.any (liftM x) :=
  lift hx.guards

theorem recover (accepts : Fault → Bool) {g} (hx : Shields A P Q x)
    (hg : ∀ e P', (∀ l, P l → P' l) → Shields A P' Q (g e)) :
    Shields A P Q (recover accepts x g) := by
  intro w hw
  obtain ⟨P', hlater, hw', hQ⟩ := hx w hw
  unfold ShieldsAt
  rw [outcome_recover]
  rcases hr : x.outcome w with ⟨(e | _) | a, u⟩ <;> rw [hr] at hlater hw' hQ
  · have hhandler : Shields A P' Q (if accepts e then g e else fail e) :=
      ite (hg e P' hlater.mono) (Shields.fail e)
    obtain ⟨P'', hlater', hw'', hQ'⟩ := hhandler u hw'
    exact ⟨P'', hlater.trans hlater', hw'', hQ'⟩
  · exact ⟨P', hlater, hw', fun _ h => nomatch h⟩
  · exact ⟨P', hlater, hw', hQ⟩

/-- What is read is taken as a value. -/
theorem value {x : Eval Cell} {f : Value → Eval β} (hx : Shields A P Cell.Within x)
    (hf : ∀ P' v, (∀ l, P l → P' l) → v.Within P' → Shields A P' R (f v)) :
    Shields A P R (x >>= fun c => liftM (valueIn c) >>= f) :=
  hx.bind fun _ _ h hc => (Shields.lift (guards_valueIn hc)).bind fun P' v h' hv =>
    hf P' v (fun l hl => h' l (h l hl)) hv

/-- A step that leaves the objects alone and what is there of activations, functions and macros. -/
theorem modifyGet {g} (hobjects : ∀ w, (g w).2.toObjects = w.toObjects)
    (hprogram : ∀ w, Extends w.activations (g w).2.activations ∧
      Extends w.functions (g w).2.functions ∧ Extends w.macros (g w).2.macros)
    (hg : ∀ w : World, w.Sealed P → (g w).2.Sealed P ∧ Q P (g w).1) :
    Shields A P Q (modifyGet g : Eval α) := by
  intro w hw
  obtain ⟨hw', hQ⟩ := hg w hw
  obtain ⟨hactivations, hfunctions, hmacros⟩ := hprogram w
  exact ⟨P, .of_extends (congrArg (·.lists) (hobjects w)) (congrArg (·.dicts) (hobjects w))
      hactivations hfunctions hmacros, hw', fun a ha => by cases ha; exact hQ⟩

theorem withState (state? : Option RenderState) (hx : Shields A P Q x) :
    Shields A P Q (withState state? x) := by
  intro w hw
  obtain ⟨P', hlater, hw', hQ⟩ := hx _ (hw.setState state?)
  exact ⟨P', { hlater with }, hw'.setState w.state?, hQ⟩

end Eval.Shields

/-! ## Single steps -/

namespace Eval

variable {A : Ref → Prop}

theorem shields_newFunction {f} (hf : f.Within P) :
    Shields A P (fun _ v => ∃ q, v = .function q) (newFunction f) :=
  .modifyGet (fun _ => rfl) (fun _ => ⟨.refl _, (Extends.refl _).push f, .refl _⟩)
    fun _ hw => ⟨hw.pushFunction hf, _, rfl⟩

theorem shields_newFrame {f} (hf : f.vars.Within P) : Shields A P Lists.any (newFrame f) := by
  refine .modifyGet (fun _ => rfl) (fun _ => ⟨.refl _, .refl _, .refl _⟩)
    fun w hw => ⟨hw.frames_congr fun r g hg => ?_, trivial⟩
  rcases get?_push_eq_some hg with hg | rfl
  · exact hw.frames r g hg
  · exact hf

theorem shields_openFrame (parent : Option Ref) : Shields A P Lists.any (newFrame { parent }) :=
  shields_newFrame fun _ he => nomatch he

theorem shields_newContext (hc : c.Within P) : Shields A P Lists.any (newContext c) :=
  .modifyGet (fun _ => rfl) (fun _ => ⟨.refl _, .refl _, .refl _⟩)
    fun _ hw => ⟨hw.pushContext hc, trivial⟩

theorem shields_newTemplate {t} (ht : t.unit.entries.BindsFunctions) :
    Shields A P Lists.any (newTemplate t) :=
  .modifyGet (fun _ => rfl) (fun _ => ⟨.refl _, .refl _, .refl _⟩)
    fun _ hw => ⟨hw.pushTemplate ht, trivial⟩

theorem shields_newMacro {m} (hm : m.Within P) : Shields A P Value.Within (newMacro m) :=
  .modifyGet (fun _ => rfl) (fun _ => ⟨.refl _, .refl _, (Extends.refl _).push m⟩)
    fun _ hw => ⟨hw.pushMacro hm, trivial⟩

theorem shields_modifyContext (r : Ref) {g} (hg : ∀ c, c.Within P → (g c).Within P) :
    Shields A P Lists.any (modifyContext r g) :=
  .modifyGet (fun _ => rfl) (fun _ => ⟨.refl _, .refl _, .refl _⟩)
    fun _ hw => ⟨hw.setContext r (hg _ (hw.heap.holds.context r)), trivial⟩

theorem shields_bindVariable (r : Ref) (name : String) {v} (hv : v.Within P) :
    Shields A P Lists.any (bindVariable r name v) := by
  refine .modifyGet (fun _ => rfl) (fun _ => ⟨.refl _, .refl _, .refl _⟩)
    fun w hw => ⟨hw.frames_congr fun q g hg => ?_, trivial⟩
  rcases get?_set_eq_some hg with hg | rfl
  · exact hw.frames q g hg
  · exact (hw.frame r).insert name hv

end Eval

namespace Script

variable {A : Ref → Prop} {r : Ref}

/-- An identifier that is no buffer is assigned. -/
theorem shields_write (hr : A r) (hid : id.isBuffer = false) {c} (hc : c.Within P) :
    Shields A P Lists.any (write r id c) := by
  intro w hw
  refine ⟨P, ?_, hw.activations_congr fun q a ha => ?_, fun _ _ => trivial⟩
  · refine { Later.refl (A := A) P w with others := fun q _ hq => ?_, own := fun q a ha => ?_ }
    · exact w.activations.get?_modify_of_ne _ fun h => hq (h ▸ hr)
    · rcases Decidable.em (r = q) with rfl | hne
      · refine ⟨a.assign id c, ?_, rfl, fun x hx => find?_insert_of_ne _ ?_ c⟩
        · exact (w.activations.get?_modify_self r _).trans (by rw [ha]; rfl)
        · rintro rfl
          exact Bool.noConfusion (hid.symm.trans hx)
      · exact ⟨a, (w.activations.get?_modify_of_ne _ hne).trans ha, rfl, fun _ _ => rfl⟩
  · rcases Decidable.em (r = q) with rfl | hne
    · have hself := w.activations.get?_modify_self r (·.assign id c)
      obtain ⟨b, hb, rfl⟩ := Option.map_eq_some_iff.1 (hself.symm.trans ha)
      exact (hw.activations r b hb).assign (fun _ => hc) fun h => nomatch hid.symm.trans h
    · exact hw.activations q a ((w.activations.get?_modify_of_ne _ hne).symm.trans ha)

theorem owner?_eq_some {w} :
    ∀ {fuel : Nat} {r : Ref}, owner? w id fuel r = some a → ∃ q, w.activations.get? q = some a := by
  intro fuel
  induction fuel with
  | zero => exact fun h => nomatch h
  | succ fuel ih =>
    intro r h
    rw [owner?] at h
    split at h
    · cases h
    next b hb =>
      split at h
      · cases h
        exact ⟨r, hb⟩
      · split at h
        · exact ih h
        · cases h

/-- An identifier that is no buffer is read. -/
theorem shields_read (r : Ref) (hid : id.isBuffer = false) :
    Shields A P Cell.Within (read r id) := by
  refine .get_bind fun w hw => ?_
  split
  next a ha =>
    obtain ⟨q, hq⟩ := owner?_eq_some ha
    split
    next c hc => exact .pure ((hw.activations q a hq).plain id c hc hid)
    next => exact .fail _
  next =>
    split
    next c hc =>
      refine .pure ?_
      unfold coreFunction? at hc
      split at hc <;> cases hc <;> trivial
    next => exact .fail _

end Script

end Stencil
