import Stencil.Proofs.Execution

/-!
# Activations belong to their calls

A call of a function works in an activation of its own and never touches one that was there before
(`Engine.steady_call`). Activations and functions refer to older activations only
(`Engine.scoped_call`), so the activation that owns an identifier is found without regard to what
came later (`ownerOf_congr`). Frames keep the parents they were made with (`Framed.kept`).
-/

namespace Stencil

open Script Engine Store World

variable {α : Type}

/-! ## Properties that everything keeps -/

/-- Two equal states of which a property holds. -/
def Always (P : World → Prop) (w w' : World) : Prop :=
  w' = w ∧ P w

namespace Always

variable {P : World → Prop}

/-- A computation is alike itself under a property just if it keeps the property. -/
theorem alike_iff {x : Eval α} : Alike (Always P) x x ↔ ∀ w, P w → P (x.outcome w).2 := by
  constructor
  · intro h w hw
    obtain ⟨a, b, u, u', hu, -, -, -, hP⟩ | ⟨e, u, u', hu, -, -, hP⟩ :=
      (h w w ⟨rfl, hw⟩).results_or_halt
    · rwa [hu]
    · rwa [hu]
  · rintro h _ w ⟨rfl, hw⟩
    have hP := h w hw
    rcases hx : x.outcome w with ⟨_ | a, u⟩ <;> rw [hx] at hP
    · exact .error ⟨rfl, hP⟩
    · exact .ok ⟨rfl, rfl, hP⟩

/-- A property of functions and activations that stands new functions of overridden blocks. -/
theorem closed {S : Store Function → Store Activation → Prop}
    (hsuper : ∀ fs acts env r name next?, S fs acts →
      S (fs.push (.superBlock env r name next?)) acts) :
    Closed (Always fun w => S w.functions w.activations) anyEntry anyMethod where
  twin h := ⟨_, h.1⟩
  rest h _ _ _ := ⟨by rw [h.1], h.2⟩
  pushFrame h _ := ⟨by rw [h.1], h.2⟩
  setFrame h _ _ _ _ := ⟨by rw [h.1], h.2⟩
  pushContext h _ _ := ⟨by rw [h.1], h.2⟩
  entryFresh _ _ _ _ _ := trivial
  entryRest _ _ _ _ _ := trivial
  setContext h _ _ _ := ⟨by rw [h.1], h.2⟩
  addBlock h _ _ _ _ := ⟨by rw [h.1], h.2⟩
  pushSuper h _ _ _ _ _ := ⟨by rw [h.1], hsuper _ _ _ _ _ _ h.2⟩
  entrySuper _ _ _ _ _ _ _ := trivial

end Always

/-- A property of the results of one computation carries over to what two computations get. -/
theorem Alike.gets {P held} {x y : Eval α} (h : Alike (Always P) x y)
    (hheld : ∀ w a u, P w → x.outcome w = (.ok a, u) → held a) : Gets (Always P) held x y := by
  rintro _ w ⟨rfl, hP⟩
  obtain ⟨a, b, u, u', hu, hu', rfl, hR⟩ | ⟨e, u, u', hu, hu', hR⟩ :=
    (h w w ⟨rfl, hP⟩).results_or_halt
  · rw [hu, hu']
    exact .ok ⟨rfl, hheld w _ u hP hu, hR⟩
  · rw [hu, hu']
    exact .error hR

/-! ## Activations that were there before -/

theorem Script.snd_outcome_read (r : Ref) (id : Ident) (w : World) :
    ((read r id).outcome w).2 = w := by
  unfold read
  rw [Eval.outcome_get_bind]
  split
  · split <;> rfl
  · split <;> rfl

/-- The first activations of two equal states are those of `base`. -/
abbrev Holding (base : Store Activation) : World → World → Prop :=
  Always fun w => Extends base w.activations

namespace Holding

variable {base : Store Activation}

theorem closed : Closed (Holding base) anyEntry anyMethod :=
  Always.closed (S := fun _ acts => Extends base acts) fun _ _ _ _ _ _ h => h

theorem runs {r : Ref} (hr : base.size ≤ r) : Runs (Holding base) r fun _ => True where
  read id _ := Always.alike_iff.2 fun w hw => by rwa [snd_outcome_read]
  write id c := Always.alike_iff.2 fun w hw => hw.modify hr _
  define name params captured body _ := Always.alike_iff.2 fun w hw => hw

theorem kept : Kept (Holding base) anyEntry anyMethod fun _ _ => True where
  toClosed := closed
  load := closed.getTemplate (fun _ _ => Always.alike_iff.2 fun w hw => hw.push _)
    fun _ => Always.alike_iff.2 fun w hw => hw
  closure hc _ limit q c args := by
    refine coupled_callClosure closed (fun _ _ h => h.1) limit c args ?_
    rintro _ w ⟨⟨rfl, hw⟩, -⟩
    exact Runs.execAll closed hc (runs hw.1) limit c.body (fun _ _ => trivial) _ _ ⟨rfl, hw.push _⟩

end Holding

/-- Calls that leave the activations alone that were there before. -/
def Call.Steady (call : Call) : Prop :=
  ∀ base, CallsAlike (Holding base) anyEntry anyMethod call call

/-- The engine works in activations of its own. -/
theorem Engine.steady_call (fuel : Nat) : (call fuel).Steady :=
  fun _ => Holding.kept.callsAlike_call (fun _ => trivial) fuel

/-- A computation that keeps any activations leaves those it starts with. -/
theorem Extends.of_holding {x : Eval α} (h : ∀ base, Alike (Holding base) x x) (w : World) :
    Extends w.activations (x.outcome w).2.activations :=
  Always.alike_iff.1 (h w.activations) w (Extends.refl _)

/-! ## Where activations and functions are nested -/

/-- Activations are nested in older ones, and functions in activations that exist. -/
structure Scoped (fs : Store Function) (acts : Store Activation) : Prop where
  activation {r a o} : acts.get? r = some a → a.outer = some o → o < r
  closure {q c o} : fs.get? q = some (.closure c) → c.outer = some o → o < acts.size

namespace Scoped

variable {fs : Store Function} {acts : Store Activation}

theorem pushFunction (h : Scoped fs acts) {f}
    (hf : ∀ c o, f = .closure c → c.outer = some o → o < acts.size) : Scoped (fs.push f) acts where
  activation := h.activation
  closure {q c o} hq ho := by
    rcases get?_push_eq_some hq with hq | heq
    · exact h.closure hq ho
    · exact hf c o heq.symm ho

theorem pushActivation (h : Scoped fs acts) {a} (ha : ∀ o, a.outer = some o → o < acts.size) :
    Scoped fs (acts.push a) where
  activation {r b o} hr ho := by
    have hlt := get?_eq_some_lt hr
    rw [size_push] at hlt
    rcases Nat.lt_or_ge r acts.size with hr' | hr'
    · rw [acts.get?_push_of_lt a hr'] at hr
      exact h.activation hr ho
    · obtain rfl := Nat.le_antisymm (Nat.le_of_lt_succ hlt) hr'
      rw [acts.get?_push_self, Option.some.injEq] at hr
      exact ha o (hr ▸ ho)
  closure hq ho := by
    rw [size_push]
    exact Nat.lt_succ_of_lt (h.closure hq ho)

theorem modify (h : Scoped fs acts) (r : Ref) {f} (hf : ∀ a, (f a).outer = a.outer) :
    Scoped fs (acts.modify r f) where
  activation {q a o} hq ho := by
    by_cases hr : r = q
    · subst hr
      rw [acts.get?_modify_self, Option.map_eq_some_iff] at hq
      obtain ⟨b, hb, rfl⟩ := hq
      exact h.activation hb (hf b ▸ ho)
    · rw [acts.get?_modify_of_ne f hr] at hq
      exact h.activation hq ho
  closure hq ho := by
    rw [size_modify]
    exact h.closure hq ho

/-- The functions of a module are nested in the activation of the module. -/
theorem load (h : Scoped fs acts) (m : Script.Module) {a} (ha : a.outer = none) :
    Scoped (fs.append (m.functions.map fun f => .closure (f.closure acts.size))) (acts.push a) where
  activation := (h.pushActivation fun o ho => by simp [ha] at ho).activation
  closure {q c o} hq ho := by
    rw [size_push]
    rcases get?_append_eq_some hq with hq | hc
    · exact Nat.lt_succ_of_lt (h.closure hq ho)
    · obtain ⟨f, -, hf⟩ := List.mem_map.1 hc
      cases hf
      cases ho
      exact Nat.lt_succ_self _

end Scoped

/-- In a state, activations and functions are nested in activations that exist. -/
abbrev World.Scoped (w : World) : Prop :=
  Stencil.Scoped w.functions w.activations

theorem World.scoped_empty : ({} : World).Scoped where
  activation ha _ := by simp [get?] at ha
  closure hq _ := by simp [get?] at hq

/-! ## Two properties at once -/

/-- Calls that lead to states which come after those they start in, in some sense. -/
structure Call.Evolves (later : World → World → Prop) (call : Call) : Prop where
  value (f : Value) (args : List Value) (w : World) : later w ((call.value f args).outcome w).2
  enter (e env : Value) (c f : Ref) (w : World) : later w ((call.enter e env c f).outcome w).2
  method (self : Cell) (field : Attr) (args : List Cell) (w : World) :
    later w ((call.method self field args).outcome w).2

theorem Call.Steady.evolves {call : Call} (h : call.Steady) :
    call.Evolves fun w u => Extends w.activations u.activations where
  value f args := Extends.of_holding fun base => (h base).value f args
  enter e env c f := Extends.of_holding fun base => (h base).enter_any e env c f
  method self field args := Extends.of_holding fun base => (h base).method self field args trivial

section

variable {P Q : World → Prop} {later : World → World → Prop}
  (hQ : ∀ w u, P w → Q w → P u → later w u → Q u)

include hQ

/-- A property that a computation keeps, together with one that lasts in what comes after. -/
theorem Coupled.always_and {E : World → Prop} {x y : Eval α}
    (h : AlikeFrom (fun w w' => Always P w w' ∧ E w) (Always P) x y)
    (hx : ∀ w, later w (x.outcome w).2) :
    AlikeFrom (fun w w' => Always (fun w => P w ∧ Q w) w w' ∧ E w) (Always fun w => P w ∧ Q w)
      x y := by
  rintro _ w ⟨⟨rfl, hP, hq⟩, hE⟩
  have hlater := hx w
  obtain ⟨a, b, u, u', hu, hu', rfl, rfl, hP'⟩ | ⟨e, u, u', hu, hu', rfl, hP'⟩ :=
    (h w w ⟨⟨rfl, hP⟩, hE⟩).results_or_halt
  · rw [hu, hu']
    rw [hu] at hlater
    exact .ok ⟨rfl, rfl, hP', hQ w _ hP hq hP' hlater⟩
  · rw [hu, hu']
    rw [hu] at hlater
    exact .error ⟨rfl, hP', hQ w _ hP hq hP' hlater⟩

theorem Alike.always_and {x y : Eval α} (h : Alike (Always P) x y)
    (hx : ∀ w, later w (x.outcome w).2) : Alike (Always fun w => P w ∧ Q w) x y :=
  fun w w' hw => Coupled.always_and hQ (E := fun _ => True) (fun w w' hw => h w w' hw.1) hx w w'
    ⟨hw, trivial⟩

theorem CallsAlike.always_and {entry : World → Ref → Value → Prop} {method : Cell → Attr → Prop}
    {call call'} (hc : CallsAlike (Always P) entry method call call') (hs : call.Evolves later) :
    CallsAlike (Always fun w => P w ∧ Q w) entry method call call' where
  value f args := (hc.value f args).always_and hQ (hs.value f args)
  enter e env c f := Coupled.always_and hQ (hc.enter e env c f) (hs.enter e env c f)
  method self field args h :=
    (hc.method self field args h).always_and hQ (hs.method self field args)

end

/-- A property that stands the steps of the engine, together with one that stands all of them. -/
theorem Closed.always_and {P Q entry method} (hP : Closed (Always P) entry method)
    (hQ : Closed (Always Q) anyEntry anyMethod) :
    Closed (Always fun w => P w ∧ Q w) entry method := by
  have first {w w' : World} (h : Always (fun w => P w ∧ Q w) w w') : Always P w w' := ⟨h.1, h.2.1⟩
  have second {w w' : World} (h : Always (fun w => P w ∧ Q w) w w') : Always Q w w' := ⟨h.1, h.2.2⟩
  have both {w w' : World} (h : Always P w w') (h' : Always Q w w') :
      Always (fun w => P w ∧ Q w) w w' := ⟨h.1, h.2, h'.2⟩
  exact
    { twin := fun h => ⟨_, h.1⟩
      rest := fun h o ms s => both (hP.rest (first h) o ms s) (hQ.rest (second h) o ms s)
      pushFrame := fun h f => both (hP.pushFrame (first h) f) (hQ.pushFrame (second h) f)
      setFrame := fun h r f hm hf =>
        both (hP.setFrame (first h) r f hm hf) (hQ.setFrame (second h) r f trivial hf)
      pushContext := fun h r vars =>
        both (hP.pushContext (first h) r vars) (hQ.pushContext (second h) r vars)
      entryFresh := fun h => hP.entryFresh (first h)
      entryRest := hP.entryRest
      setContext := fun h r c hb =>
        both (hP.setContext (first h) r c hb) (hQ.setContext (second h) r c hb)
      addBlock := fun h r name block hm =>
        both (hP.addBlock (first h) r name block hm) (hQ.addBlock (second h) r name block trivial)
      pushSuper := fun h env r name next? hn =>
        both (hP.pushSuper (first h) env r name next? hn)
          (hQ.pushSuper (second h) env r name next? hn)
      entrySuper := fun h => hP.entrySuper (first h) }

/-- The same with a property of the activations. -/
theorem Closed.always_and_activations {P entry method} (hP : Closed (Always P) entry method)
    (S : Store Activation → Prop) : Closed (Always fun w => P w ∧ S w.activations) entry method :=
  hP.always_and (Always.closed (S := fun _ acts => S acts) fun _ _ _ _ _ _ h => h)

namespace Scoped

theorem closed : Closed (Always World.Scoped) anyEntry anyMethod :=
  Always.closed fun _ _ _ _ _ _ h => h.pushFunction fun _ _ hf => nomatch hf

/-- Scripts nest what they define in their own activation. -/
theorem runs (r : Ref) :
    Runs (Always fun w => w.Scoped ∧ r < w.activations.size) r fun _ => True where
  read id _ := Always.alike_iff.2 fun w hw => by rwa [snd_outcome_read]
  write id c := Always.alike_iff.2 fun w hw =>
    ⟨hw.1.modify r fun _ => rfl, by simpa [Script.write] using hw.2⟩
  define name params captured body _ := Always.alike_iff.2 fun w hw =>
    ⟨hw.1.pushFunction fun c o hc ho => by cases hc; cases ho; exact hw.2, hw.2⟩

theorem kept : Kept (Always World.Scoped) anyEntry anyMethod fun call _ => call.Steady where
  toClosed := closed
  load := closed.getTemplate (fun m _ => Always.alike_iff.2 fun w hw => hw.load m rfl)
    fun _ => Always.alike_iff.2 fun w hw => hw
  closure hc hg limit q c args := by
    refine coupled_callClosure closed (fun _ _ h => h.1) limit c args ?_
    rintro _ w ⟨⟨rfl, hw⟩, hq, -⟩
    have hcalls := hc.always_and (Q := fun u => w.activations.size < u.activations.size)
      (fun _ _ _ hr _ he => Nat.lt_of_lt_of_le hr he.1) hg.evolves
    have hrun := Runs.execAll (closed.always_and_activations (w.activations.size < ·.size)) hcalls
      (runs _) limit c.body (fun _ _ => trivial)
      (w.activate c args) _
      ⟨rfl, hw.pushActivation fun o ho => hw.closure hq ho, by simp⟩
    exact hrun.mono (fun _ _ _ _ h => ⟨h.1, h.2.1, h.2.2.1⟩) fun _ _ h => ⟨h.1, h.2.1⟩

end Scoped

/-- The engine nests what it makes in activations that exist. -/
theorem Engine.scoped_call (fuel : Nat) :
    CallsAlike (Always World.Scoped) anyEntry anyMethod (Engine.call fuel) (Engine.call fuel) :=
  Scoped.kept.callsAlike_call steady_call fuel

/-! ## Properties that do not depend on functions and activations -/

section

variable {P : World → Prop}
  (hP : ∀ {w : World} (fs : Store Function) (acts : Store Activation), P w →
    P { w with functions := fs, activations := acts })

include hP

theorem Always.runs (r : Ref) : Runs (Always P) r fun _ => True where
  read id _ := Always.alike_iff.2 fun w hw => by rwa [snd_outcome_read]
  write _ _ := Always.alike_iff.2 fun w hw => hP w.functions _ hw
  define _ _ _ _ _ := Always.alike_iff.2 fun w hw => hP _ w.activations hw

/-- So does the engine, if the property stands its other steps. -/
theorem Closed.kept (hR : Closed (Always P) anyEntry anyMethod)
    (htemplate : ∀ w t, P w → P { w with templates := w.templates.push t }) :
    Kept (Always P) anyEntry anyMethod fun _ _ => True where
  toClosed := hR
  load := hR.getTemplate (fun _ _ => Always.alike_iff.2 fun w hw => hP _ _ hw)
    fun t => Always.alike_iff.2 fun w hw => htemplate w t hw
  closure hc _ limit q c args := by
    refine coupled_callClosure hR (fun _ _ h => h.1) limit c args ?_
    rintro _ w ⟨⟨rfl, hw⟩, -⟩
    exact Runs.execAll hR hc (Always.runs hP _) limit c.body (fun _ _ => trivial) _ _
      ⟨rfl, hP w.functions _ hw⟩

end

/-! ## Frames keep their parents -/

/-- The first frames have the same parents as those of `base`. -/
def KeepsParents (base frames : Store Frame) : Prop :=
  base.size ≤ frames.size ∧
    ∀ q < base.size, (frames.get? q).map (·.parent) = (base.get? q).map (·.parent)

theorem KeepsParents.parent_eq {w u : World} (h : KeepsParents w.frames u.frames) {f}
    (hf : f < w.frames.size) : (u.frame f).parent = (w.frame f).parent := by
  obtain ⟨g, hg⟩ := exists_get?_of_lt hf
  obtain ⟨g', hg', hparent⟩ := Option.map_eq_some_iff.1 ((h.2 f hf).trans (congrArg _ hg))
  simp only [frame, hg, hg', Option.getD_some, hparent]

/-- The first frames of two equal states have the same parents as those of `base`. -/
abbrev Framed (base : Store Frame) : World → World → Prop :=
  Always fun w => KeepsParents base w.frames

namespace Framed

variable {base : Store Frame}

theorem closed : Closed (Framed base) anyEntry anyMethod where
  twin h := ⟨_, h.1⟩
  rest h _ _ _ := ⟨by rw [h.1], h.2⟩
  pushFrame {w _} h f := by
    refine ⟨by rw [h.1], ?_, fun q hq => ?_⟩
    · rw [size_push]
      exact Nat.le_succ_of_le h.2.1
    · rw [w.frames.get?_push_of_lt f (Nat.lt_of_lt_of_le hq h.2.1)]
      exact h.2.2 q hq
  setFrame {w _} h r f _ hf := by
    refine ⟨by rw [h.1], by simpa using h.2.1, fun q hq => ?_⟩
    rw [← h.2.2 q hq]
    by_cases hr : r = q
    · subst hr
      have hlt := Nat.lt_of_lt_of_le hq h.2.1
      obtain ⟨g, hg⟩ := exists_get?_of_lt hlt
      rw [w.frames.get?_set_self f hlt, hg]
      simp only [frame, hg, Option.getD_some] at hf
      simp [hf]
    · rw [w.frames.get?_set_of_ne f hr]
  pushContext h _ _ := ⟨by rw [h.1], h.2⟩
  entryFresh _ _ _ _ _ := trivial
  entryRest _ _ _ _ _ := trivial
  setContext h _ _ _ := ⟨by rw [h.1], h.2⟩
  addBlock h _ _ _ _ := ⟨by rw [h.1], h.2⟩
  pushSuper h _ _ _ _ _ := ⟨by rw [h.1], h.2⟩
  entrySuper _ _ _ _ _ _ _ := trivial

theorem runs (r : Ref) : Runs (Framed base) r fun _ => True :=
  Always.runs (fun _ _ h => h) r

theorem kept : Kept (Framed base) anyEntry anyMethod fun _ _ => True :=
  closed.kept (fun _ _ h => h) fun _ _ h => h

end Framed

end Stencil
