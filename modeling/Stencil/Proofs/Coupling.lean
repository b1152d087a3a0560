import Stencil.World

/-!
# Two computations side by side

The outcome of a computation is a result or a halt, with the state it leaves. `Coupled pre x y post
err` says that `x` and `y`, started in states related by `pre`, either both give results and leave
states related by `post`, or both halt in the same way and leave states related by `err`. The rules
of this module build such statements step by step; `Alike` is the case of one relation that holds
throughout and of equal results.
-/

namespace Stencil

open Eval

variable {α β γ δ : Type}

/-! ## Outcomes of the building blocks -/

namespace Eval

@[simp]
theorem outcome_pure (a : α) (w : World) : (pure a : Eval α).outcome w = (.ok a, w) := rfl

theorem outcome_bind (x : Eval α) (f : α → Eval β) (w : World) : (x >>= f).outcome w =
      match x.outcome w with
      | (.ok a, u) => (f a).outcome u
      | (.error h, u) => (.error h, u) := by
  show (match x.outcome w with | (r, u) => (ExceptT.bindCont f r).run u) = _
  rcases x.outcome w with ⟨_ | _, _⟩ <;> rfl

variable {x : Eval α} {w u : World}

theorem outcome_bind_congr {y} (h : x.outcome w = y.outcome u) (f : α → Eval β) :
    (x >>= f).outcome w = (y >>= f).outcome u := by
  rw [outcome_bind, outcome_bind, h]

theorem outcome_bind_of_ok {a} (h : x.outcome w = (.ok a, u)) (f : α → Eval β) :
    (x >>= f).outcome w = (f a).outcome u := by
  rw [outcome_bind, h]

theorem outcome_bind_of_error {e} (h : x.outcome w = (.error e, u)) (f : α → Eval β) :
    (x >>= f).outcome w = (.error e, u) := by
  rw [outcome_bind, h]

theorem outcome_bind_eq_ok {f} {b : β} (h : (x >>= f).outcome w = (.ok b, u)) :
    ∃ a v, x.outcome w = (.ok a, v) ∧ (f a).outcome v = (.ok b, u) := by
  rw [outcome_bind] at h
  rcases hx : x.outcome w with ⟨e | a, v⟩ <;> rw [hx] at h
  · cases h
  · exact ⟨a, v, rfl, h⟩

@[simp]
theorem outcome_fail (f : Fault) (w : World) :
    (fail f : Eval α).outcome w = (.error (.fault f), w) := rfl

@[simp]
theorem outcome_throw (h : Halt) (w : World) : (throw h : Eval α).outcome w = (.error h, w) := rfl

@[simp]
theorem outcome_get (w : World) : (get : Eval World).outcome w = (.ok w, w) := rfl

@[simp]
theorem outcome_modify (f : World → World) (w : World) :
    (modify f : Eval Unit).outcome w = (.ok (), f w) := rfl

@[simp]
theorem outcome_modifyGet (f : World → α × World) (w : World) :
    (modifyGet f : Eval α).outcome w = (.ok (f w).1, (f w).2) := rfl

theorem outcome_lift (x : Operation α) (w : World) : (liftM x : Eval α).outcome w =
      ((x.perform w.toSurroundings w.toObjects).1.mapError .fault,
        { w with toObjects := (x.perform w.toSurroundings w.toObjects).2 }) := rfl

theorem outcome_tryCatch (x : Eval α) (f : Halt → Eval α) (w : World) : (tryCatch x f).outcome w =
      match x.outcome w with
      | (.ok a, u) => (.ok a, u)
      | (.error e, u) => (f e).outcome u := by
  unfold outcome
  rw [ExceptT.run_tryCatch, StateT.run_bind]
  rcases x.run.run w with ⟨_ | _, _⟩ <;> rfl

theorem outcome_recover (accepts : Fault → Bool) (x : Eval α) (f : Fault → Eval α) (w : World) :
    (recover accepts x f).outcome w =
      match x.outcome w with
      | (.ok a, u) => (.ok a, u)
      | (.error (.fault e), u) => (if accepts e then f e else fail e).outcome u
      | (.error .outOfFuel, u) => (.error .outOfFuel, u) := by
  show (tryCatch x _).outcome w = _
  rw [outcome_tryCatch]
  rcases x.outcome w with ⟨(_ | _) | _, _⟩ <;> rfl

theorem outcome_eq_ok_none {x : Eval (Option α)}
    (h : (x.outcome w).1.toOption.map Option.isNone = some true) :
    x.outcome w = (.ok none, (x.outcome w).2) := by
  rcases hx : x.outcome w with ⟨_ | a?, u⟩ <;> rw [hx] at h
  · cases h
  · cases a? with
    | none => rfl
    | some a => cases h

@[simp]
theorem outcome_get_bind (f : World → Eval α) (w : World) :
    (get >>= f).outcome w = (f w).outcome w := rfl

@[simp]
theorem outcome_pure_bind (a : α) (f : α → Eval β) (w : World) :
    (pure a >>= f).outcome w = (f a).outcome w := rfl

@[simp]
theorem lift_pure (a : α) : (liftM (pure a : Operation α) : Eval α) = pure a := rfl

theorem perform_bind (x : Operation α) (f : α → Operation β) (s : Surroundings) (o : Objects) :
    (x >>= f).perform s o =
      match x.perform s o with
      | (.ok a, o) => (f a).perform s o
      | (.error e, o) => (.error e, o) := by
  unfold Operation.perform
  rw [ReaderT.run_bind, ExceptT.run_bind, StateT.run_bind]
  rcases (x.run s).run.run o with ⟨_ | _, _⟩ <;> rfl

theorem perform_recover_of_ok {x s o o'} (accepts : Fault → Bool) (f : Fault → Operation α) {a}
    (h : x.perform s o = (.ok a, o')) : (recover accepts x f).perform s o = (.ok a, o') := by
  unfold Operation.perform at h ⊢
  show ((tryCatch (x.run s) _ : ExceptT Fault (StateM Objects) α).run).run o = _
  rw [ExceptT.run_tryCatch, StateT.run_bind, h]
  rfl

theorem perform_recover_of_error {x s o o'} (accepts : Fault → Bool) (f : Fault → Operation α) {e}
    (h : x.perform s o = (.error e, o')) :
    (recover accepts x f).perform s o = (if accepts e then f e else fail e).perform s o' := by
  unfold Operation.perform at h ⊢
  show ((tryCatch (x.run s) _ : ExceptT Fault (StateM Objects) α).run).run o = _
  rw [ExceptT.run_tryCatch, StateT.run_bind, h]
  rfl

theorem lift_bind (x : Operation α) (f : α → Operation β) :
    (liftM (x >>= f) : Eval β) = liftM x >>= fun a => (liftM (f a) : Eval β) := by
  refine ExceptT.ext (funext fun w => ?_)
  show (liftM (x >>= f) : Eval β).outcome w =
    (liftM x >>= fun a => (liftM (f a) : Eval β)).outcome w
  rw [outcome_bind, outcome_lift, outcome_lift, perform_bind]
  rcases x.perform w.toSurroundings w.toObjects with ⟨_ | _, _⟩ <;> rfl

end Eval

/-! ## Coupled computations -/

/-- Outcomes that agree: two results in states related by `post`, or the same halt in states related
by `err`. -/
inductive Agree (post : α → β → World → World → Prop) (err : World → World → Prop) :
    Except Halt α × World → Except Halt β × World → Prop where
  | ok {a b w w'} (h : post a b w w') : Agree post err (.ok a, w) (.ok b, w')
  | error {e w w'} (h : err w w') : Agree post err (.error e, w) (.error e, w')

variable {err : World → World → Prop}

theorem Agree.results_or_halt {post} {o : Except Halt α × World} {o' : Except Halt β × World}
    (h : Agree post err o o') : (∃ a b u u', o = (.ok a, u) ∧ o' = (.ok b, u') ∧ post a b u u') ∨
      ∃ e u u', o = (.error e, u) ∧ o' = (.error e, u') ∧ err u u' := by
  cases h with
  | ok h => exact .inl ⟨_, _, _, _, rfl, rfl, h⟩
  | error h => exact .inr ⟨_, _, _, rfl, rfl, h⟩

theorem Agree.mono {post post' err'} {o : Except Halt α × World} {o' : Except Halt β × World}
    (h : Agree post err o o') (hpost : ∀ a b w w', post a b w w' → post' a b w w')
    (herr : ∀ w w', err w w' → err' w w') : Agree post' err' o o' := by
  cases h with
  | ok h => exact .ok (hpost _ _ _ _ h)
  | error h => exact .error (herr _ _ h)

theorem Agree.bind {x} {y : Eval β} {f : α → Eval γ} {g w w' mid}
    {post : γ → δ → World → World → Prop} (hx : Agree mid err (x.outcome w) (y.outcome w'))
    (hf : ∀ a b u u', mid a b u u' → Agree post err ((f a).outcome u) ((g b).outcome u')) :
    Agree post err ((x >>= f).outcome w) ((y >>= g).outcome w') := by
  obtain ⟨a, b, u, u', hu, hu', h⟩ | ⟨e, u, u', hu, hu', h⟩ := hx.results_or_halt
  · rw [outcome_bind_of_ok hu, outcome_bind_of_ok hu']
    exact hf a b u u' h
  · rw [outcome_bind_of_error hu, outcome_bind_of_error hu']
    exact .error h

/-- From related states, two computations have outcomes that agree. -/
def Coupled (pre : World → World → Prop) (x : Eval α) (y : Eval β)
    (post : α → β → World → World → Prop) (err : World → World → Prop) : Prop :=
  ∀ w w', pre w w' → Agree post err (x.outcome w) (y.outcome w')

namespace Coupled

variable {pre mid : World → World → Prop} {err : World → World → Prop}
  {x : Eval α} {y : Eval β} {post : α → β → World → World → Prop}

theorem weaken {pre' err' : World → World → Prop} {post' : α → β → World → World → Prop}
    (h : Coupled pre x y post err) (hpre : ∀ w w', pre' w w' → pre w w')
    (hpost : ∀ a b w w', post a b w w' → post' a b w w') (herr : ∀ w w', err w w' → err' w w') :
    Coupled pre' x y post' err' :=
  fun w w' hw => (h w w' (hpre w w' hw)).mono hpost herr

theorem ensures {post' : α → β → World → World → Prop} (h : Coupled pre x y post err)
    (hpost : ∀ a b w w', post a b w w' → post' a b w w') : Coupled pre x y post' err :=
  fun w w' hw => (h w w' hw).mono hpost fun _ _ h => h

protected theorem pure {a b} (h : ∀ w w', pre w w' → post a b w w') :
    Coupled pre (pure a) (pure b) post err :=
  fun w w' hw => .ok (h w w' hw)

protected theorem fail {f} (h : ∀ w w', pre w w' → err w w') :
    Coupled pre (fail f : Eval α) (fail f : Eval β) post err :=
  fun w w' hw => .error (h w w' hw)

protected theorem throw {e} (h : ∀ w w', pre w w' → err w w') :
    Coupled pre (throw e : Eval α) (throw e : Eval β) post err :=
  fun w w' hw => .error (h w w' hw)

theorem bind {f : α → Eval γ} {g : β → Eval δ} {mid : α → β → World → World → Prop}
    {post : γ → δ → World → World → Prop} (hx : Coupled pre x y mid err)
    (hf : ∀ a b, Coupled (mid a b) (f a) (g b) post err) :
    Coupled pre (x >>= f) (y >>= g) post err :=
  fun w w' hw => (hx w w' hw).bind hf

theorem bind_left {f} {post : γ → β → World → World → Prop} {a}
    (hx : ∀ w w', pre w w' → ∃ u, x.outcome w = (.ok a, u) ∧ mid u w')
    (hf : Coupled mid (f a) y post err) : Coupled pre (x >>= f) y post err := by
  intro w w' hw
  obtain ⟨u, hu, hm⟩ := hx w w' hw
  rw [outcome_bind_of_ok hu]
  exact hf u w' hm

theorem map_right {f : β → γ} {post' : α → γ → World → World → Prop} (hx : Coupled pre x y post err)
    (hf : ∀ a b w w', post a b w w' → post' a (f b) w w') :
    Coupled pre x (y >>= fun b => pure (f b)) post' err := by
  have h : Coupled pre (x >>= pure) (y >>= fun b => pure (f b)) post' err :=
    hx.bind fun a b w w' hw => .ok (hf a b w w' hw)
  rwa [bind_pure] at h

theorem get_bind {f g}
    (h : ∀ w w', pre w w' → Agree post err ((f w).outcome w) ((g w').outcome w')) :
    Coupled pre (get >>= f) (get >>= g) post err :=
  fun w w' hw => h w w' hw

end Coupled

/-- From states related by `pre`, two computations end in the same way and in states related by
`R`. -/
abbrev AlikeFrom (pre R : World → World → Prop) (x y : Eval α) : Prop :=
  Coupled pre x y (fun a b w w' => b = a ∧ R w w') R

/-- The text that a computation gives, if it gives one. -/
def Eval.text? (x : Eval Value) (w : World) : Option String :=
  match (x.outcome w).1 with
  | .ok (.str s) => some s
  | _ => none

/-- From related states, two computations end in the same way and in related states. -/
def Alike (R : World → World → Prop) (x y : Eval α) : Prop :=
  AlikeFrom R R x y

theorem Coupled.bind_alike {pre R : World → World → Prop} {x y : Eval α} {f g : α → Eval β}
    (hx : AlikeFrom pre R x y) (hf : ∀ a, Alike R (f a) (g a)) :
    AlikeFrom pre R (x >>= f) (y >>= g) := by
  refine Coupled.bind hx fun a b => ?_
  rintro w w' ⟨rfl, hw⟩
  exact hf _ w w' hw

namespace Alike

variable {R : World → World → Prop} {x y : Eval α}

protected theorem pure (a : α) : Alike R (pure a) (pure a) :=
  Coupled.pure fun _ _ h => ⟨rfl, h⟩

protected theorem fail (f : Fault) : Alike R (fail f : Eval α) (fail f) :=
  Coupled.fail fun _ _ h => h

protected theorem throw (e : Halt) : Alike R (throw e : Eval α) (throw e) :=
  Coupled.throw fun _ _ h => h

protected theorem bind {f g : α → Eval β} (hx : Alike R x y) (hf : ∀ a, Alike R (f a) (g a)) :
    Alike R (x >>= f) (y >>= g) :=
  Coupled.bind_alike hx hf

theorem ite {c : Prop} [Decidable c] {x' y'} (hx : Alike R x y) (hx' : Alike R x' y') :
    Alike R (if c then x else x') (if c then y else y') := by
  split
  · exact hx
  · exact hx'

end Alike

end Stencil
