import Stencil.Proofs.Veil

/-!
# A script next to an interpreter

`Mirror` relates the state of a script that runs in the activation `r` to the state of an
interpreter that works without one. The two states are equal up to what `r` holds under hidden
identifiers; moreover the script's state has the expected contents under the `known` identifiers and
the expected parents of frames. Operations, calls and the other steps that both sides take alike
keep all this (`Mirror.step`), and so does an assignment to a hidden identifier (`Mirror.write`).
-/

namespace Stencil

open Script Engine

variable {α : Type}

/-! ## Steps that both sides take alike -/

/-- Computations that cannot tell veiled states apart, work in activations of their own, and keep
the parents of frames. -/
structure Neutral (x y : Eval α) : Prop where
  veiled (r : Ref) (hidden : Ident → Prop) : Alike (Veiled r hidden) x y
  holding (base : Store Activation) : Alike (Holding base) x x
  framed (base : Store Frame) : Alike (Framed base) x x

theorem Neutral.of_closed {x : Eval α}
    (h : ∀ R, Closed R anyEntry anyMethod → Alike R x x) : Neutral x x :=
  ⟨fun _ _ => h _ Veiled.closed, fun _ => h _ Holding.closed, fun _ => h _ Framed.closed⟩

theorem Neutral.bind {β : Type} {x y} {f g : α → Eval β} (hx : Neutral x y)
    (hf : ∀ a, Neutral (f a) (g a)) : Neutral (x >>= f) (y >>= g) :=
  ⟨fun r hidden => (hx.veiled r hidden).bind fun a => (hf a).veiled r hidden,
    fun base => (hx.holding base).bind fun a => (hf a).holding base,
    fun base => (hx.framed base).bind fun a => (hf a).framed base⟩

theorem Neutral.lift (x : Operation α) : Neutral (liftM x : Eval α) (liftM x) :=
  .of_closed fun _ hR => hR.lift x

/-- Calls of values that are neutral, and methods of the machinery as the engine has them. -/
structure Call.Sound (call : Call) : Prop where
  value (f : Value) (args : List Value) : Neutral (call.value f args) (call.value f args)
  method : ∃ inner, ∀ self field args,
    call.method self field args = callMethod inner self field args

theorem Engine.sound_call (fuel : Nat) : (call (fuel + 1)).Sound where
  value f args :=
    ⟨fun r hidden => (veiled_call r hidden (fuel + 1)).value f args,
      fun base => (steady_call (fuel + 1) base).value f args,
      fun _ => (Framed.kept.callsAlike_call (fun _ => trivial) (fuel + 1)).value f args⟩
  method := ⟨call fuel, fun _ _ _ => rfl⟩

/-- What is known of a script: the activation `r` it runs in, the identifiers `own` that belong to
it, those of them that are `hidden` from all functions, what some identifiers hold and which parents
some frames have. -/
structure Knowledge where
  r : Ref
  hidden : Ident → Prop
  own : List Ident
  known : Ident → Option Cell
  parents : List (Ref × Ref) := []

/-- To know that an identifier now holds `c`. -/
def Knowledge.learn (k : Knowledge) (id : Ident) (c : Cell) : Knowledge :=
  { k with known := fun i => if i = id then some c else k.known i }

@[simp]
theorem Knowledge.known_learn_self (k : Knowledge) (id : Ident) (c : Cell) :
    (k.learn id c).known id = some c := if_pos rfl

theorem Knowledge.known_learn_of_ne (k : Knowledge) {id i} (h : i ≠ id) (c : Cell) :
    (k.learn id c).known i = k.known i := if_neg h

/-- The state `w` of a script of which `k` is known, and the state `w'` of an interpreter. -/
structure Mirror (k : Knowledge) (w w' : World) : Prop where
  veiled : Veiled k.r k.hidden w w'
  owned : ∃ a, w.activations.get? k.r = some a ∧ a.owned = k.own
  reads (id : Ident) (c : Cell) : k.known id = some c → reads? w k.r id = some c
  parent (f q : Ref) : (f, q) ∈ k.parents → f < w.frames.size ∧ (w.frame f).parent = some q

namespace Mirror

variable {k : Knowledge} {w w' : World}

theorem nested (h : Mirror k w w') : Nested w.activations := by
  obtain ⟨_, _, hv⟩ := h.veiled
  exact hv.nesting.activation

theorem weaken (h : Mirror k w w') {known parents}
    (hk : ∀ id c, known id = some c → k.known id = some c) (hp : ∀ p ∈ parents, p ∈ k.parents) :
    Mirror { k with known, parents } w w' :=
  ⟨h.veiled, h.owned, fun id c hc => h.reads id c (hk id c hc),
    fun f q hf => h.parent f q (hp _ hf)⟩

variable {id : Ident} {c : Cell} {β : Type} {err : World → World → Prop}

theorem forget (h : Mirror (k.learn id c) w w') (hid : k.known id = none) : Mirror k w w' := by
  refine h.weaken (fun i d hd => ?_) fun _ hp => hp
  have hne : i ≠ id := fun he => by
    rw [he, hid] at hd
    cases hd
  rwa [k.known_learn_of_ne hne]

/-- A neutral step keeps what is known. -/
theorem step {x y : Eval α} (hx : Neutral x y) :
    Coupled (Mirror k) x y (fun a b w w' => b = a ∧ Mirror k w w') (Veiled k.r k.hidden) := by
  intro w w' h
  have hext := Extends.of_holding hx.holding w
  have hpar := Always.alike_iff.1 (hx.framed w.frames) w ⟨Nat.le_refl _, fun _ _ => rfl⟩
  obtain ⟨a, b, u, u', hu, hu', hab, hv⟩ | ⟨e, u, u', hu, hu', hv⟩ :=
    (hx.veiled k.r k.hidden w w' h.veiled).results_or_halt
  · rw [hu, hu']
    rw [hu] at hext hpar
    refine .ok ⟨hab, hv, ?_, fun id c hc => ?_, fun f q hf => ?_⟩
    · obtain ⟨_, _, hw⟩ := h.veiled
      obtain ⟨a, ha, hown⟩ := h.owned
      exact ⟨a, by rw [hext.2 k.r hw.lt, ha], hown⟩
    · obtain ⟨_, _, hw⟩ := h.veiled
      obtain ⟨_, _, hv⟩ := hv
      rw [reads?_extends h.nested hv.nesting.activation hext hw.lt]
      exact h.reads id c hc
    · obtain ⟨hlt, hq⟩ := h.parent f q hf
      exact ⟨Nat.lt_of_lt_of_le hlt hpar.1, (KeepsParents.parent_eq hpar hlt).trans hq⟩
  · rw [hu, hu']
    exact .error hv

/-- Assigning a hidden identifier. -/
theorem assign (h : Mirror k w w') (c : Cell) (hown : id ∈ k.own) (hhid : k.hidden id) :
    Mirror (k.learn id c) (w.assign k.r id c)
      w' where
  veiled := by
    obtain ⟨acts, hw, hv⟩ := h.veiled
    exact ⟨acts, hw, hv.assign hhid c⟩
  owned := by
    obtain ⟨a, ha, hown⟩ := h.owned
    refine ⟨a.assign id c, ?_, hown⟩
    exact (w.activations.get?_modify_self k.r _).trans (congrArg _ ha)
  reads i d hd := by
    obtain ⟨a, ha, hao⟩ := h.owned
    by_cases hi : i = id
    · subst hi
      rw [k.known_learn_self, Option.some.injEq] at hd
      exact hd ▸ reads?_assign_self c h.nested ha (hao ▸ hown)
    · rw [k.known_learn_of_ne hi] at hd
      exact (reads?_assign_of_ne c h.nested hi).trans (h.reads i d hd)
  parent := h.parent

theorem left {γ : Type} {z s y} {c : γ} {post : α → β → World → World → Prop}
    (hz : ∀ w w', Mirror k w w' → z.outcome w = (.ok c, w))
    (hs : Coupled (Mirror k) (s c) y post err) : Coupled (Mirror k) (z >>= s) y post err :=
  Coupled.bind_left (fun w w' h => ⟨w, hz w w' h, h⟩) hs

theorem read {s : Cell → Eval α} {y : Eval β} {post : α → β → World → World → Prop}
    (hid : k.known id = some c) (hs : Coupled (Mirror k) (s c) y post err) :
    Coupled (Mirror k) (Script.read k.r id >>= s) y post err :=
  left (fun _ _ h => outcome_read_of_reads? (h.reads id c hid)) hs

theorem write {s y} {post : α → β → World → World → Prop} (hown : id ∈ k.own) (hhid : k.hidden id)
    (hs : Coupled (Mirror (k.learn id c)) (s ()) y post err) :
    Coupled (Mirror k) (Script.write k.r id c >>= s) y post err :=
  Coupled.bind_left (fun _ _ h => ⟨_, rfl, h.assign c hown hhid⟩) hs

end Mirror

/-! ## What scripts show -/

/-- As long as `k` is known, the script computation `x` gives `f b` where the interpreter's `y`
gives `b`, and halts where `y` halts. -/
def Shows {β : Type} (k : Knowledge) (f : β → α) (x : Eval α) (y : Eval β) : Prop :=
  Coupled (Mirror k) x y (fun a b w w' => a = f b ∧ Mirror k w w') (Veiled k.r k.hidden)

/-- As long as `k` is known, an expression has the values that the interpreter's `y` gives. -/
abbrev Yields (call : Call) (k : Knowledge) (e : Expr) (y : Eval Value) : Prop :=
  Shows k Cell.value (eval call k.r e) y

namespace Shows

variable {β γ δ : Type} {k : Knowledge} {f : β → α} {g : δ → γ} {x : Eval α} {y : Eval β}

protected theorem pure (b : β) : Shows k f (pure (f b)) (pure b) :=
  Coupled.pure fun _ _ h => ⟨rfl, h⟩

protected theorem fail (e : Fault) : Shows k f (Eval.fail e : Eval α) (Eval.fail e) :=
  Coupled.fail fun _ _ h => h.veiled

protected theorem bind {s t} (hx : Shows k f x y) (hs : ∀ b, Shows k g (s (f b)) (t b)) :
    Shows k g (x >>= s) (y >>= t) := by
  refine Coupled.bind hx fun a b => ?_
  rintro w w' ⟨rfl, hw⟩
  exact hs b w w' hw

variable {x : Eval α}

theorem neutral {y : Eval α} (h : Neutral x y) : Shows k id x y :=
  (Mirror.step h).ensures fun _ _ _ _ h => ⟨h.1.symm, h.2⟩

theorem lift (x : Operation α) : Shows k id (liftM x : Eval α) (liftM x) :=
  neutral (.lift x)

theorem value {x y} (h : Shows k id x y) :
    Shows k Cell.value (x >>= fun v => pure (.value v)) y := by
  have hv := h.bind (g := Cell.value) (s := fun v => pure (.value v)) fun v =>
    Shows.pure v
  rwa [bind_pure] at hv

theorem value_bind {x y s t} (hx : Shows k Cell.value x y) (hs : ∀ v, Shows k g (s v) (t v)) :
    Shows k g (x >>= fun c => liftM (Eval.valueIn c) >>= s) (y >>= t) :=
  hx.bind hs

theorem ite {c : Prop} [Decidable c] {x' y y'} (h : Shows k f x y) (h' : Shows k f x' y') :
    Shows k f (if c then x else x') (if c then y else y') := by
  split
  · exact h
  · exact h'

theorem ite_truthy {x' y y'} (v : Value) (h : Shows k f x y) (h' : Shows k f x' y') :
    Shows k f (get >>= fun w => if w.truthy v then x else x')
      (get >>= fun w => if w.truthy v then y else y') := by
  refine Coupled.get_bind fun w w' hw => ?_
  obtain ⟨acts, rfl, -⟩ := hw.veiled
  split
  · exact h w _ hw
  · exact h' w _ hw

end Shows

end Stencil
