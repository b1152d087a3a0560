import Stencil.Compile.Module

/-!
# What a compilation step gives

`Gives x p a p'` says that the step `x`, begun with the progress `p`, succeeds with `a` and the
progress `p'`. One lemma for each building block turns such a statement into what it means for the
parts.
-/

namespace Stencil.Compile

open Script (Ident)

variable {α β : Type} {p p' : Progress}

/-- A compilation step succeeds with a result and a new progress. -/
def Gives (x : Gen α) (p : Progress) (a : α) (p' : Progress) : Prop :=
  x.run.run p = (.ok a, p')

@[simp]
theorem gives_pure {a b : α} : Gives (pure a) p b p' ↔ b = a ∧ p' = p := by
  show ((.ok a : Except CompileError α), p) = (.ok b, p') ↔ _
  rw [Prod.mk.injEq, Except.ok.injEq]
  exact ⟨fun h => ⟨h.1.symm, h.2.symm⟩, fun h => ⟨h.1.symm, h.2.symm⟩⟩

@[simp]
theorem gives_throw {e a} : Gives (throw e : Gen α) p a p' ↔ False :=
  ⟨fun h => (nomatch h), False.elim⟩

/-- A step after another one goes on from the progress of the first. -/
@[simp]
theorem gives_bind {x} {f : α → Gen β} {b} :
    Gives (x >>= f) p b p' ↔ ∃ a q, Gives x p a q ∧ Gives (f a) q b p' := by
  have hrun : (x >>= f).run.run p =
      match x.run.run p with
      | (.ok a, q) => (f a).run.run q
      | (.error e, q) => (.error e, q) := by
    rw [ExceptT.run_bind, StateT.run_bind]
    rcases x.run.run p with ⟨_ | _, _⟩ <;> rfl
  unfold Gives
  rw [hrun]
  constructor
  · intro h
    rcases hx : x.run.run p with ⟨_ | a, q⟩
    · rw [hx] at h
      cases h
    · rw [hx] at h
      exact ⟨a, q, rfl, h⟩
  · rintro ⟨a, q, hx, h⟩
    rw [hx]
    exact h

@[simp]
theorem gives_get {q} : Gives (get : Gen Progress) p q p' ↔ q = p ∧ p' = p := by
  show ((.ok p : Except CompileError Progress), p) = (.ok q, p') ↔ _
  rw [Prod.mk.injEq, Except.ok.injEq]
  exact ⟨fun h => ⟨h.1.symm, h.2.symm⟩, fun h => ⟨h.1.symm, h.2.symm⟩⟩

@[simp]
theorem gives_set {q a} : Gives (set q : Gen PUnit) p a p' ↔ p' = q := by
  show ((.ok () : Except CompileError PUnit), q) = (.ok a, p') ↔ _
  rw [Prod.mk.injEq]
  exact ⟨fun h => h.2.symm, fun h => ⟨rfl, h.symm⟩⟩

@[simp]
theorem gives_modify {f a} : Gives (modify f : Gen PUnit) p a p' ↔ p' = f p := by
  show ((.ok () : Except CompileError PUnit), f p) = (.ok a, p') ↔ _
  rw [Prod.mk.injEq]
  exact ⟨fun h => h.2.symm, fun h => ⟨rfl, h.symm⟩⟩

@[simp]
theorem gives_reject {cause n a} : Gives (reject cause n : Gen α) p a p' ↔ False :=
  gives_throw

@[simp]
theorem gives_lacking {n part a} : Gives (lacking n part : Gen α) p a p' ↔ False :=
  gives_throw

/-- A temporary is numbered by the new progress. -/
@[simp]
theorem gives_fresh {id : Ident} :
    Gives fresh p id p' ↔ id = .temp (p.temps + 1) ∧ p' = { p with temps := p.temps + 1 } := by
  unfold fresh
  simp only [gives_bind, gives_get, gives_set, gives_pure]
  constructor
  · rintro ⟨_, _, ⟨rfl, rfl⟩, _, _, rfl, rfl, rfl⟩
    exact ⟨rfl, rfl⟩
  · rintro ⟨rfl, rfl⟩
    exact ⟨p, p, ⟨rfl, rfl⟩, ⟨⟩, _, rfl, rfl, rfl⟩

@[simp]
theorem gives_demand {accepted n a} :
    Gives (demand accepted n) p a p' ↔ accepted = true ∧ p' = p := by
  cases accepted <;> simp [demand]

theorem gives_nameOf {n c} : Gives (nameOf n) p c p' ↔ n.content? = some c ∧ p' = p := by
  unfold nameOf
  cases n.content? <;> simp [eq_comm]

end Stencil.Compile
