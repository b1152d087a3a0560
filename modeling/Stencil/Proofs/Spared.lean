import Stencil.Proofs.Ownership

/-!
# Identifiers that code does not assign

Code changes in its activation only what it assigns: all other identifiers hold afterwards what they
held before, whatever functions the code calls and however it ends (`spared_eval`,
`spared_execAll`).
-/

namespace Stencil

open Script Engine List

variable {w : World} {r : Ref} {S : Ident → Prop} {acts acts' : Store Activation}

/-- The activation `r` is still there, and identifiers outside of `S` hold in it what they hold in
the state `w`. -/
structure Spared (w : World) (r : Ref) (S : Ident → Prop) (acts : Store Activation) : Prop where
  lt : r < acts.size
  owned : (acts.get? r).map (·.owned) = (w.activations.get? r).map (·.owned)
  reads (id : Ident) : ¬ S id → reads? { activations := acts } r id = reads? w r id

namespace Spared

theorem refl (hr : r < w.activations.size) : Spared w r S w.activations :=
  ⟨hr, rfl, fun _ _ => rfl⟩

theorem of_extends (h : Spared w r S acts) (hn : Nested acts) (hn' : Nested acts')
    (he : Extends acts acts') : Spared w r S acts' where
  lt := Nat.lt_of_lt_of_le h.lt he.1
  owned := by rw [he.2 r h.lt, h.owned]
  reads id hid := (reads?_extends (u := { activations := acts' })
    hn hn' he h.lt).trans (h.reads id hid)

theorem assign (h : Spared w r S acts) (hn : Nested acts) {id} (hid : S id) (c : Cell) :
    Spared w r S (acts.modify r (·.assign id c)) where
  lt := by rw [Store.size_modify]; exact h.lt
  owned := by
    rw [acts.get?_modify_self, ← h.owned]
    cases acts.get? r <;> rfl
  reads other hother := by
    have hne : other ≠ id := by
      rintro rfl
      exact hother hid
    exact (reads?_assign_of_ne (w := { activations := acts }) c hn hne).trans (h.reads other hother)

/-- To assign identifiers in `S` only. -/
def policy (S : Ident → Prop) : Policy where
  reads := fun _ => True
  writes := S
  fields := fun _ => True
  whole := fun _ _ => False
  defines := fun _ _ => True

theorem obeysExpr {e : Expr} (he : ∀ id ∈ e.assigned, S id) : e.Obeys (policy S).toAccess := by
  refine e.obeys_of_parts fun x hx => ?_
  cases x <;> try trivial
  case bind id v => exact he id (e.mem_assigned_iff.2 ⟨v, hx⟩)

mutual

theorem obeys : ∀ s : Stmt, (∀ id ∈ s.assigned, S id) → s.Obeys (policy S)
  | .expr e, h | .ret e, h => obeysExpr h
  | .assign id e, h => ⟨h id mem_cons_self, obeysExpr (forall_mem_cons.1 h).2⟩
  | .increment id e, h =>
    ⟨trivial, h id mem_cons_self, obeysExpr (forall_mem_cons.1 h).2⟩
  | .branch test body otherwise, h => by
    obtain ⟨h, hotherwise⟩ := forall_mem_append.1 h
    obtain ⟨htest, hbody⟩ := forall_mem_append.1 h
    exact ⟨obeysExpr htest, obeyInBody body hbody, obeyInBody otherwise hotherwise⟩
  | .loop target source body, h => by
    obtain ⟨h, hbody⟩ := forall_mem_append.1 h
    obtain ⟨htarget, hsource⟩ := forall_mem_append.1 h
    exact ⟨htarget, obeysExpr hsource, obeyInBody body hbody⟩
  | .define name params captured body, h => by
    obtain ⟨hname, hcaptured⟩ := forall_mem_cons.1 h
    exact ⟨hname, fun p hp => obeysExpr fun id hid =>
      hcaptured id (mem_flatMap.2 ⟨p, hp, hid⟩), trivial⟩
  | .pass, _ => trivial

theorem obeyInBody : ∀ ss : List Stmt, (∀ id ∈ assignedInBody ss, S id) → ObeyInBody (policy S) ss
  | [], _ => trivial
  | s :: rest, h => by
    obtain ⟨hs, hrest⟩ := forall_mem_append.1 h
    exact ⟨obeys s hs, obeyInBody rest hrest⟩

end

theorem conducts {call} (hs : call.Steady)
    (hc : CallsAlike (Always World.Scoped) anyEntry anyMethod call call) :
    Conducts (Always fun u => u.Scoped ∧ Spared w r S u.activations) anyEntry anyMethod call call r
      (policy S) fun _ => True where
  toClosed := Scoped.closed.always_and_activations (Spared w r S)
  toCallsAlike := hc.always_and
    (fun _ _ hP h hP' he => h.of_extends hP.activation hP'.activation he) hs.evolves
  heldValue _ := trivial
  heldMethod _ _ := trivial
  heldResult self field args _ := .of_alike ((hc.always_and
    (Q := fun u => Spared w r S u.activations)
    (fun _ _ hP h hP' he => h.of_extends hP.activation hP'.activation he) hs.evolves).method self
    field args trivial)
  allowsMethod _ := trivial
  allowsEntry _ _ _ _ _ := trivial
  read id _ := .of_alike (Always.alike_iff.2 fun u hu => by rwa [snd_outcome_read])
  write id c hid _ := Always.alike_iff.2 fun u hu =>
    ⟨hu.1.modify r fun _ => rfl, hu.2.assign hu.1.activation hid c⟩
  define name params captured body _ _ := Always.alike_iff.2 fun u hu =>
    ⟨hu.1.pushFunction fun c o hc ho => by cases hc; cases ho; exact hu.2.lt, hu.2⟩
  whole _ _ h := h.elim

end Spared

theorem spared_eval (fuel : Nat) {e : Expr} (he : ∀ id ∈ e.assigned, S id) (hw : w.Scoped)
    (hr : r < w.activations.size) :
    ((eval (call fuel) r e).outcome w).2.Scoped ∧
      Spared w r S ((eval (call fuel) r e).outcome w).2.activations := by
  have hconduct := Spared.conducts (w := w) (r := r) (S := S) (steady_call fuel) (scoped_call fuel)
  exact Always.alike_iff.1 (hconduct.eval e (Spared.obeysExpr he)).alike w ⟨hw, .refl hr⟩

theorem spared_execAll (fuel limit : Nat) {ss} (hss : ∀ id ∈ assignedInBody ss, S id)
    (hw : w.Scoped) (hr : r < w.activations.size) :
    ((execAll (call fuel) limit r ss).outcome w).2.Scoped ∧
      Spared w r S ((execAll (call fuel) limit r ss).outcome w).2.activations := by
  have hconduct := Spared.conducts (w := w) (r := r) (S := S) (steady_call fuel) (scoped_call fuel)
  exact Always.alike_iff.1 (hconduct.execAll limit ss (Spared.obeyInBody ss hss)) w ⟨hw, .refl hr⟩

/-- What an assignment leaves in its activation: the assigned identifier holds what the expression
gave, and others that the expression does not assign hold what they held. -/
theorem reads?_assigned {fuel e a t c u} (he : ∀ id ∈ e.assigned, S id) (hw : w.Scoped)
    (ha : w.activations.get? r = some a) (ht : t ∈ a.owned)
    (heval : (eval (call fuel) r e).outcome w = (.ok c, u)) :
    let u' := (u.assign r t c)
    reads? u' r t = some c ∧ ∀ id, ¬ S id → id ≠ t → reads? u' r id = reads? w r id := by
  obtain ⟨hscoped, hspared⟩ := spared_eval fuel he hw (Store.get?_eq_some_lt ha)
  rw [heval] at hscoped hspared
  obtain ⟨a', ha', howned⟩ := Option.map_eq_some_iff.1 (hspared.owned.trans (congrArg _ ha))
  refine ⟨reads?_assign_self c hscoped.activation ha' (howned ▸ ht), fun id hid hne => ?_⟩
  exact (reads?_assign_of_ne c hscoped.activation hne).trans (hspared.reads id hid)

end Stencil
