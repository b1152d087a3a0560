import Stencil.Proofs.Parts
import Stencil.Proofs.Traversal

/-!
# Scripts that keep to a policy

The generic part of every proof about running scripts. A `Policy` says what a script may do in its
activation: which identifiers it may read and assign, which functions it may define, and which calls
are to be looked at as a whole. `Conducts` says of a relation of states that it stands what the
policy allows, as long as variables hold only what is `held`. Every script that obeys the policy
keeps such a relation (`Conducts.execAll`).
-/


namespace Stencil

open Script Eval List

variable {α β : Type} {R : World → World → Prop}

/-! ## Computations with a result of some kind -/

/-- From related states, two computations end in the same way and in related states, with a result
of which `held` holds. -/
def Gets (R : World → World → Prop) (held : α → Prop) (x y : Eval α) : Prop :=
  Coupled R x y (fun a b w w' => b = a ∧ held a ∧ R w w') R

namespace Gets

variable {held : α → Prop} {kept : β → Prop} {x y : Eval α}

theorem alike (h : Gets R held x y) : Alike R x y :=
  Coupled.ensures h fun _ _ _ _ h => ⟨h.1, h.2.2⟩

theorem of_alike (h : Alike R x y) : Gets R (fun _ => True) x y :=
  Coupled.ensures h fun _ _ _ _ h => ⟨h.1, trivial, h.2⟩

protected theorem pure {a} (h : held a) : Gets R held (pure a) (pure a) :=
  Coupled.pure fun _ _ hw => ⟨rfl, h, hw⟩

protected theorem fail (f : Fault) : Gets R held (fail f : Eval α) (fail f) :=
  Coupled.fail fun _ _ h => h

protected theorem bind {f g} (hx : Gets R held x y) (hf : ∀ a, held a → Gets R kept (f a) (g a)) :
    Gets R kept (x >>= f) (y >>= g) := by
  refine Coupled.bind hx fun a b => ?_
  rintro w w' ⟨rfl, ha, hw⟩
  exact hf _ ha w w' hw

theorem bind_alike {f g : α → Eval β} (hx : Gets R held x y)
    (hf : ∀ a, held a → Alike R (f a) (g a)) : Alike R (x >>= f) (y >>= g) := by
  refine Coupled.bind hx fun a b => ?_
  rintro w w' ⟨rfl, ha, hw⟩
  exact hf _ ha w w' hw

theorem ite {c : Prop} [Decidable c] {x' y'} (hx : Gets R held x y) (hx' : Gets R held x' y') :
    Gets R held (if c then x else x') (if c then y else y') := by
  split
  · exact hx
  · exact hx'

end Gets

theorem Alike.gets_bind {kept x y} {f g : α → Eval β} (hx : Alike R x y)
    (hf : ∀ a, Gets R kept (f a) (g a)) : Gets R kept (x >>= f) (y >>= g) := by
  refine Coupled.bind hx fun a b => ?_
  rintro w w' ⟨rfl, hw⟩
  exact hf _ w w' hw

/-- A look at the state that ignores the activations. -/
theorem Closed.gets_get_bind {entry method} (hR : Closed R entry method) {held}
    {f g : World → Eval α} (hf : ∀ w, Gets R held (f w) (g w))
    (hg : ∀ w acts, g { w with activations := acts } = g w) :
    Gets R held (get >>= f) (get >>= g) := by
  intro w w' hw
  obtain ⟨acts, rfl⟩ := hR.twin hw
  rw [outcome_get_bind, outcome_get_bind, hg]
  exact hf w w _ hw

/-! ## Statements that come to their end -/

/-- From states related by `pre`, two runs of statements end in the same way and in states related
by `R`, and in states related by `mid` if they come to their end without a return. -/
def Leads (pre mid R : World → World → Prop) (x y : Eval (Option Cell)) : Prop :=
  Coupled pre x y (fun a b w w' => b = a ∧ R w w' ∧ (a = none → mid w w')) R

/-- What goes on where the first runs come to their end. -/
theorem Leads.next {pre mid post x y} (h : Leads pre mid R x y) {f g}
    (hf : ∀ c, f (some c) = pure (some c)) (hg : ∀ c, g (some c) = pure (some c))
    (hnone : Leads mid post R (f none) (g none)) : Leads pre post R (x >>= f) (y >>= g) := by
  refine Coupled.bind h fun a b => ?_
  rintro w w' ⟨rfl, hR, hmid⟩
  cases b with
  | none => exact hnone w w' (hmid rfl)
  | some c =>
    rw [hf, hg]
    exact .ok ⟨rfl, hR, fun h => (Option.some_ne_none c h).elim⟩

/-- Statements that come to their end leave what they start from. -/
abbrev Passes (pre R : World → World → Prop) (x y : Eval (Option Cell)) : Prop :=
  Leads pre pre R x y

namespace Leads

variable {pre : World → World → Prop} {x y : Eval (Option Cell)}

theorem alike (h : Passes R R x y) : Alike R x y :=
  Coupled.ensures h fun _ _ _ _ h => ⟨h.1, h.2.1⟩

theorem of_alike (h : Alike pre x y) (hpre : ∀ w w', pre w w' → R w w') : Passes pre R x y :=
  Coupled.weaken h (fun _ _ h => h) (fun _ _ _ _ h => ⟨h.1, hpre _ _ h.2, fun _ => h.2⟩) hpre

section

variable (hpre : ∀ w w', pre w w' → R w w')

include hpre

theorem after {u v} {f g : α → Eval (Option Cell)} (hu : Alike pre u v)
    (hf : ∀ a, Passes pre R (f a) (g a)) : Passes pre R (u >>= f) (v >>= g) := by
  have hu : Coupled pre u v (fun a b w w' => b = a ∧ pre w w') R :=
    Coupled.weaken hu (fun _ _ h => h) (fun _ _ _ _ h => h) hpre
  refine hu.bind fun a b => ?_
  rintro w w' ⟨rfl, hw⟩
  exact hf _ w w' hw

variable {round round' : Value → Eval (Option Cell)}
  (hround : ∀ v, Passes pre R (round v) (round' v))

include hround

theorem roundsOver (vs : List Value) :
    Passes pre R (roundsOver round vs) (roundsOver round' vs) := by
  induction vs with
  | nil => exact .of_alike (Alike.pure none) hpre
  | cons v rest ih => exact next (hround v) (fun _ => rfl) (fun _ => rfl) ih

theorem roundsFrom (hnext : ∀ it : Iteration, Alike pre (liftM it.next) (liftM it.next))
    (fuel : Nat) :
    ∀ it, Passes pre R (roundsFrom round fuel it) (roundsFrom round' fuel it) := by
  induction fuel with
  | zero => exact fun _ => .of_alike (Alike.throw _) hpre
  | succ fuel ih =>
    intro it
    refine after hpre (hnext it) fun next? => ?_
    cases next? with
    | none => exact .of_alike (Alike.pure none) hpre
    | some p => exact next (hround p.1) (fun _ => rfl) (fun _ => rfl) (ih p.2)

end

theorem runLoop {entry method} (hclosed : Closed pre entry method)
    (hpre : ∀ w w', pre w w' → R w w') {round round'}
    (hround : ∀ v, Passes pre R (round v) (round' v)) (limit : Nat) (source : Value) :
    Passes pre R (runLoop limit source round) (runLoop limit source round') := by
  intro w w' hw
  obtain ⟨acts, rfl⟩ := hclosed.twin hw
  unfold Script.runLoop
  rw [outcome_get_bind, outcome_get_bind]
  dsimp only
  split
  · exact .error (hpre _ _ hw)
  · exact roundsOver hpre hround _ _ _ hw
  · exact roundsFrom hpre hround (fun it => hclosed.lift it.next) _ _ _ _ hw

end Leads

/-! ## Policies -/

/-- What an expression may do in an activation: the identifiers that it may read, those that it may
assign, the attributes that it may take from what it has, and the calls that are looked at as a
whole. -/
structure Access where
  reads : Ident → Prop
  writes : Ident → Prop
  fields : Attr → Prop
  whole : Expr → List Expr → Prop

/-- What a script may do in its activation. The functions that it may define are given by their
parameters and their bodies. -/
structure Policy extends Access where
  defines : List Ident → List Stmt → Prop

section

variable (π : Access)

mutual

/-- An expression does what a policy allows. -/
def Script.Expr.Obeys : Expr → Prop
  | .const _ | .tree _ => True
  | .name id => π.reads id
  | .attr object field => π.fields field ∧ object.Obeys
  | .subscript object index => object.Obeys ∧ index.Obeys
  | .call callee args => π.whole callee args ∨ (callee.Obeys ∧ ObeyIn args)
  | .list items | .tuple items => ObeyIn items
  | .dict entries => ObeyInEntries entries
  | .boolean _ left right | .binary _ left right => left.Obeys ∧ right.Obeys
  | .unary _ operand => operand.Obeys
  | .compare first rest => first.Obeys ∧ ObeyInOperands rest
  | .conditional test body otherwise => test.Obeys ∧ body.Obeys ∧ otherwise.Obeys
  | .bind id value => π.writes id ∧ value.Obeys

def Script.ObeyIn : List Expr → Prop
  | [] => True
  | e :: rest => e.Obeys ∧ ObeyIn rest

def Script.ObeyInEntries : List (Expr × Expr) → Prop
  | [] => True
  | (key, e) :: rest => key.Obeys ∧ e.Obeys ∧ ObeyInEntries rest

def Script.ObeyInOperands : List (CompareOp × Expr) → Prop
  | [] => True
  | (_, e) :: rest => e.Obeys ∧ ObeyInOperands rest

end

/-- What a policy allows for a single part of an expression. -/
def Access.Allows : Expr → Prop
  | .name id => π.reads id
  | .attr _ field => π.fields field
  | .bind id _ => π.writes id
  | _ => True

/-- The identifiers that a loop target assigns may be assigned. -/
def Script.Target.Obeys (t : Target) : Prop :=
  ∀ id ∈ t.assigned, π.writes id

variable {π}

mutual

/-- An expression does what a policy allows if each of its parts does. -/
theorem Script.Expr.obeys_of_parts : ∀ e : Expr, (∀ x ∈ e.parts, π.Allows x) → e.Obeys π
  | .const _, _ | .tree _, _ => trivial
  | .name _, h => h _ mem_cons_self
  | .attr object _, h =>
    ⟨h _ mem_cons_self, object.obeys_of_parts (forall_mem_cons.1 h).2⟩
  | .unary _ operand, h => operand.obeys_of_parts (forall_mem_cons.1 h).2
  | .subscript a b, h | .boolean _ a b, h | .binary _ a b, h => by
    obtain ⟨ha, hb⟩ := forall_mem_append.1 (forall_mem_cons.1 h).2
    exact ⟨a.obeys_of_parts ha, b.obeys_of_parts hb⟩
  | .call callee args, h => by
    obtain ⟨hcallee, hargs⟩ := forall_mem_append.1 (forall_mem_cons.1 h).2
    exact .inr ⟨callee.obeys_of_parts hcallee, obeyIn_of_parts args hargs⟩
  | .list items, h | .tuple items, h =>
    obeyIn_of_parts items (forall_mem_cons.1 h).2
  | .dict entries, h => obeyInEntries_of_parts entries (forall_mem_cons.1 h).2
  | .compare first rest, h => by
    obtain ⟨hfirst, hrest⟩ := forall_mem_append.1 (forall_mem_cons.1 h).2
    exact ⟨first.obeys_of_parts hfirst, obeyInOperands_of_parts rest hrest⟩
  | .conditional test body otherwise, h => by
    obtain ⟨h, hotherwise⟩ := forall_mem_append.1 (forall_mem_cons.1 h).2
    obtain ⟨htest, hbody⟩ := forall_mem_append.1 h
    exact ⟨test.obeys_of_parts htest, body.obeys_of_parts hbody,
      otherwise.obeys_of_parts hotherwise⟩
  | .bind _ value, h =>
    ⟨h _ mem_cons_self, value.obeys_of_parts (forall_mem_cons.1 h).2⟩

theorem Script.obeyIn_of_parts : ∀ es : List Expr, (∀ x ∈ partsOf es, π.Allows x) → ObeyIn π es
  | [], _ => trivial
  | e :: rest, h => by
    obtain ⟨he, hrest⟩ := forall_mem_append.1 h
    exact ⟨e.obeys_of_parts he, obeyIn_of_parts rest hrest⟩

theorem Script.obeyInEntries_of_parts : ∀ es : List (Expr × Expr),
    (∀ x ∈ partsOfEntries es, π.Allows x) → ObeyInEntries π es
  | [], _ => trivial
  | (key, e) :: rest, h => by
    obtain ⟨h, hrest⟩ := forall_mem_append.1 h
    obtain ⟨hkey, he⟩ := forall_mem_append.1 h
    exact ⟨key.obeys_of_parts hkey, e.obeys_of_parts he, obeyInEntries_of_parts rest hrest⟩

theorem Script.obeyInOperands_of_parts : ∀ es : List (CompareOp × Expr),
    (∀ x ∈ partsOfOperands es, π.Allows x) → ObeyInOperands π es
  | [], _ => trivial
  | (_, e) :: rest, h => by
    obtain ⟨he, hrest⟩ := forall_mem_append.1 h
    exact ⟨e.obeys_of_parts he, obeyInOperands_of_parts rest hrest⟩

end

end

section

variable (π : Policy)

mutual

/-- A statement does what a policy allows. -/
def Script.Stmt.Obeys : Stmt → Prop
  | .expr e | .ret e => e.Obeys π.toAccess
  | .assign id e => π.writes id ∧ e.Obeys π.toAccess
  | .increment id e => π.reads id ∧ π.writes id ∧ e.Obeys π.toAccess
  | .branch test body otherwise =>
    test.Obeys π.toAccess ∧ ObeyInBody body ∧ ObeyInBody otherwise
  | .loop target source body => target.Obeys π.toAccess ∧ source.Obeys π.toAccess ∧ ObeyInBody body
  | .define name params captured body =>
    π.writes name ∧ (∀ p ∈ captured, p.2.Obeys π.toAccess) ∧
      π.defines (params ++ captured.map (·.1)) body
  | .pass => True

def Script.ObeyInBody : List Stmt → Prop
  | [] => True
  | s :: rest => s.Obeys ∧ ObeyInBody rest

end

end

/-! ### What may be assigned -/

/-- Whole calls that a policy allows assign what it allows. -/
def Access.Covers (π : Access) : Prop :=
  ∀ callee args, π.whole callee args → ∀ id ∈ (Expr.call callee args).assigned, π.writes id

section

variable {π : Access}

mutual

/-- An expression that does what a policy allows assigns what it allows. -/
theorem Script.Expr.writes_of_assigned (hwhole : π.Covers) : ∀ e : Expr, e.Obeys π →
    ∀ id ∈ e.assigned, π.writes id
  | .const _, _, _, hid | .tree _, _, _, hid | .name _, _, _, hid => nomatch hid
  | .attr object _, h, id, hid => object.writes_of_assigned hwhole h.2 id hid
  | .unary _ operand, h, id, hid => operand.writes_of_assigned hwhole h id hid
  | .subscript a b, h, id, hid | .boolean _ a b, h, id, hid | .binary _ a b, h, id, hid =>
    (mem_append.1 hid).elim (a.writes_of_assigned hwhole h.1 id)
      (b.writes_of_assigned hwhole h.2 id)
  | .call callee args, h, id, hid => by
    rcases h with h | h
    · exact hwhole callee args h id hid
    · exact (mem_append.1 hid).elim (callee.writes_of_assigned hwhole h.1 id)
        (writes_of_assignedIn hwhole args h.2 id)
  | .list items, h, id, hid | .tuple items, h, id, hid =>
    writes_of_assignedIn hwhole items h id hid
  | .dict entries, h, id, hid => writes_of_assignedInEntries hwhole entries h id hid
  | .compare first rest, h, id, hid =>
    (mem_append.1 hid).elim (first.writes_of_assigned hwhole h.1 id)
      (writes_of_assignedInOperands hwhole rest h.2 id)
  | .conditional test body otherwise, h, id, hid =>
    (mem_append.1 hid).elim
      (fun hid => (mem_append.1 hid).elim (test.writes_of_assigned hwhole h.1 id)
        (body.writes_of_assigned hwhole h.2.1 id))
      (otherwise.writes_of_assigned hwhole h.2.2 id)
  | .bind _ value, h, id, hid => by
    rcases mem_cons.1 hid with rfl | hid
    · exact h.1
    · exact value.writes_of_assigned hwhole h.2 id hid

theorem Script.writes_of_assignedIn (hwhole : π.Covers) : ∀ es : List Expr, ObeyIn π es →
    ∀ id ∈ assignedIn es, π.writes id
  | [], _, _, hid => nomatch hid
  | e :: rest, h, id, hid =>
    (mem_append.1 hid).elim (e.writes_of_assigned hwhole h.1 id)
      (writes_of_assignedIn hwhole rest h.2 id)

theorem Script.writes_of_assignedInEntries (hwhole : π.Covers) : ∀ es : List (Expr × Expr),
    ObeyInEntries π es → ∀ id ∈ assignedInEntries es, π.writes id
  | [], _, _, hid => nomatch hid
  | (key, e) :: rest, h, id, hid =>
    (mem_append.1 hid).elim
      (fun hid => (mem_append.1 hid).elim (key.writes_of_assigned hwhole h.1 id)
        (e.writes_of_assigned hwhole h.2.1 id))
      (writes_of_assignedInEntries hwhole rest h.2.2 id)

theorem Script.writes_of_assignedInOperands (hwhole : π.Covers) : ∀ es : List (CompareOp × Expr),
    ObeyInOperands π es → ∀ id ∈ assignedInOperands es, π.writes id
  | [], _, _, hid => nomatch hid
  | (_, e) :: rest, h, id, hid =>
    (mem_append.1 hid).elim (e.writes_of_assigned hwhole h.1 id)
      (writes_of_assignedInOperands hwhole rest h.2 id)

end

end

section

variable {π : Policy}

mutual

/-- A statement that does what a policy allows assigns what it allows. -/
theorem Script.Stmt.writes_of_assigned (hwhole : π.toAccess.Covers) : ∀ s : Stmt, s.Obeys π →
    ∀ id ∈ s.assigned, π.writes id
  | .expr e, h, id, hid | .ret e, h, id, hid => e.writes_of_assigned hwhole h id hid
  | .assign _ e, h, id, hid => by
    rcases mem_cons.1 hid with rfl | hid
    · exact h.1
    · exact e.writes_of_assigned hwhole h.2 id hid
  | .increment _ e, h, id, hid => by
    rcases mem_cons.1 hid with rfl | hid
    · exact h.2.1
    · exact e.writes_of_assigned hwhole h.2.2 id hid
  | .branch test body otherwise, h, id, hid =>
    (mem_append.1 hid).elim
      (fun hid => (mem_append.1 hid).elim (test.writes_of_assigned hwhole h.1 id)
        (writes_of_assignedInBody hwhole body h.2.1 id))
      (writes_of_assignedInBody hwhole otherwise h.2.2 id)
  | .loop _ source body, h, id, hid =>
    (mem_append.1 hid).elim
      (fun hid => (mem_append.1 hid).elim (h.1 id) (source.writes_of_assigned hwhole h.2.1 id))
      (writes_of_assignedInBody hwhole body h.2.2 id)
  | .define _ _ captured _, h, id, hid => by
    rcases mem_cons.1 hid with rfl | hid
    · exact h.1
    · obtain ⟨p, hp, hid⟩ := mem_flatMap.1 hid
      exact p.2.writes_of_assigned hwhole (h.2.1 p hp) id hid
  | .pass, _, _, hid => nomatch hid

theorem Script.writes_of_assignedInBody (hwhole : π.toAccess.Covers) : ∀ body : List Stmt,
    ObeyInBody π body → ∀ id ∈ assignedInBody body, π.writes id
  | [], _, _, hid => nomatch hid
  | s :: rest, h, id, hid =>
    (mem_append.1 hid).elim (s.writes_of_assigned hwhole h.1 id)
      (writes_of_assignedInBody hwhole rest h.2 id)

end

end

/-! ## Running scripts -/

/-- A relation of states that stands what a policy allows a script in the activation `r`, where
variables hold only what is `held`. -/
structure Conducts (R : World → World → Prop) (entry : World → Ref → Value → Prop)
    (permit : Cell → Attr → Prop) (call call' : Call) (r : Ref) (π : Policy) (held : Cell → Prop) :
    Prop extends Closed R entry permit, CallsAlike R entry permit call call' where
  heldValue (v : Value) : held (.value v)
  heldMethod {self field} : π.fields field → held self → held (.method self field)
  heldResult (self : Cell) (field : Attr) (args : List Cell) : permit self field →
    Gets R held (call.method self field args) (call'.method self field args)
  allowsMethod {self field} : held (.method self field) → permit self field
  allowsEntry {c : Ref} (e : Value) : held (.context c) → ∀ w w', R w w' → entry w c e
  read (id : Ident) : π.reads id → Gets R held (read r id) (read r id)
  write (id : Ident) (c : Cell) : π.writes id → held c → Alike R (write r id c) (write r id c)
  define (name : Ident) (params : List Ident) (captured : List (Ident × Cell))
      (body : List Stmt) : π.defines (params ++ captured.map (·.1)) body →
    (∀ p ∈ captured, held p.2) →
    Alike R (do newFunction (.closure (closureIn (← get) r name params captured body)))
      (do newFunction (.closure (closureIn (← get) r name params captured body)))
  whole (callee : Expr) (args : List Expr) : π.whole callee args →
    Gets R held (eval call r (.call callee args)) (eval call' r (.call callee args))

namespace Conducts

variable {entry : World → Ref → Value → Prop} {permit : Cell → Attr → Prop} {call call' : Call}
  {r : Ref} {π : Policy} {held : Cell → Prop}

section

variable (h : Conducts R entry permit call call' r π held)

include h

theorem operate (x : Operation α) : Alike R (liftM x : Eval α) (liftM x) :=
  h.toClosed.lift x

theorem operateValue (x : Operation Value) :
    Gets R held (do return .value (← x)) (do return .value (← x)) :=
  (h.operate x).gets_bind fun v => .pure (h.heldValue v)

theorem fieldOf {c} (hc : held c) {field} (hfield : π.fields field) :
    Gets R held (fieldOf c field) (fieldOf c field) := by
  unfold Script.fieldOf
  split
  · exact .pure (h.heldValue _)
  · exact h.toClosed.gets_get_bind (fun _ => .pure (h.heldValue _)) fun _ _ => rfl
  · exact .ite (.pure (h.heldMethod hfield hc)) (.fail _)

/-- Calling what a variable holds, in states in which it may be entered if it is an entry point. -/
theorem agree_callCell {callee args} (hcallee : held callee) {w w' : World} (hw : R w w')
    (hentry : ∀ f env c frame, callee = .value f →
      entryArguments? args = some (env, c, frame) → entry w c f) :
    Agree (fun a b u u' => b = a ∧ held a ∧ R u u') R ((callCell call callee args).outcome w)
      ((callCell call' callee args).outcome w') := by
  unfold callCell
  split
  · rename_i f
    split
    · rename_i env c frame hargs
      refine (h.enter f env c frame w w' ⟨hw, hentry f env c frame rfl hargs⟩).bind ?_
      rintro v _ u u' ⟨rfl, hu⟩
      exact .ok ⟨rfl, h.heldValue _, hu⟩
    · have hcall := (h.operate (valuesIn args)).gets_bind fun vs =>
        (h.value f vs).gets_bind fun v => Gets.pure (h.heldValue v)
      exact hcall w w' hw
  · exact h.heldResult _ _ _ (h.allowsMethod hcallee) w w' hw
  · rename_i f
    have hcore := (h.operate (valuesIn args)).gets_bind fun vs => h.operateValue (callCore f vs)
    exact hcore w w' hw
  · exact .error hw

theorem callCell {callee args} (hcallee : held callee)
    (hentry : ∀ f env c frame, callee = .value f → entryArguments? args = some (env, c, frame) →
      ∀ w w', R w w' → entry w c f) :
    Gets R held (callCell call callee args) (callCell call' callee args) :=
  fun w w' hw => h.agree_callCell hcallee hw fun f env c frame hf hargs =>
    hentry f env c frame hf hargs w w' hw

/-- Everything may be entered with a context that variables may hold. -/
theorem allowsEntryArguments {args} (hargs : ∀ c ∈ args, held c) (f env : Value) (c frame : Ref)
    (hentry : entryArguments? args = some (env, c, frame)) (w w' : World) (hw : R w w') :
    entry w c f := by
  unfold entryArguments? at hentry
  split at hentry
  · cases hentry
    exact h.allowsEntry f (hargs _ (by simp)) w w' hw
  · cases hentry

end

mutual

/-- An expression that obeys the policy. -/
theorem eval (h : Conducts R entry permit call call' r π held) : ∀ e : Expr,
    e.Obeys π.toAccess → Gets R held (eval call r e) (eval call' r e)
  | .const _, _ => .pure (h.heldValue _)
  | .tree _, _ => .fail _
  | .name id, ho => h.read id ho
  | .attr object _, ho => (h.eval object ho.2).bind fun _ hc => h.fieldOf hc ho.1
  | .subscript object index, ho => by
    refine (h.eval object ho.1).bind fun _ _ => (h.operate _).gets_bind fun v => ?_
    exact (h.eval index ho.2).bind fun _ _ => (h.operate _).gets_bind fun i => h.operateValue _
  | .call callee args, ho => by
    rcases ho with ho | ho
    · exact h.whole callee args ho
    · exact (h.eval callee ho.1).bind fun _ hc => (h.evalAll args ho.2).bind fun _ hcs =>
        h.callCell hc fun f env c frame _ => h.allowsEntryArguments hcs f env c frame
  | .list items, ho => (h.evalAll items ho).bind fun _ _ => (h.operate _).gets_bind fun _ =>
      h.operateValue _
  | .tuple items, ho => (h.evalAll items ho).bind fun _ _ => (h.operate _).gets_bind fun _ =>
      h.operateValue _
  | .dict entries, ho => (h.evalEntries entries ho).gets_bind fun _ =>
      h.toClosed.gets_get_bind (fun _ => h.operateValue _) fun _ _ => rfl
  | .boolean op left right, ho => by
    have hr := h.eval right ho.2
    cases op with
    | or => exact (h.eval left ho.1).bind fun _ _ => (h.operate _).gets_bind fun v =>
        h.toClosed.gets_get_bind (fun _ => .ite (.pure (h.heldValue v)) hr) fun _ _ => rfl
    | and => exact (h.eval left ho.1).bind fun _ _ => (h.operate _).gets_bind fun v =>
        h.toClosed.gets_get_bind (fun _ => .ite hr (.pure (h.heldValue v))) fun _ _ => rfl
  | .binary op left right, ho => by
    refine (h.eval left ho.1).bind fun _ _ => (h.operate _).gets_bind fun _ => ?_
    refine (h.eval right ho.2).bind fun _ _ => (h.operate _).gets_bind fun _ => ?_
    exact (h.operate _).gets_bind fun _ => .pure (h.heldValue _)
  | .unary op operand, ho => (h.eval operand ho).bind fun _ _ => (h.operate _).gets_bind fun _ =>
      (h.operate _).gets_bind fun _ => .pure (h.heldValue _)
  | .compare first rest, ho => by
    refine (h.eval first ho.1).bind fun _ _ => (h.operate _).gets_bind fun v => ?_
    exact (h.evalChain rest ho.2 v).gets_bind fun _ => .pure (h.heldValue _)
  | .conditional test body otherwise, ho => by
    have hb := h.eval body ho.2.1
    have he := h.eval otherwise ho.2.2
    refine (h.eval test ho.1).bind fun _ _ => (h.operate _).gets_bind fun _ => ?_
    exact h.toClosed.gets_get_bind (fun _ => .ite hb he) fun _ _ => rfl
  | .bind id value, ho => (h.eval value ho.2).bind fun c hc =>
      (h.write id c ho.1 hc).gets_bind fun _ => .pure hc

theorem evalAll (h : Conducts R entry permit call call' r π held) : ∀ es : List Expr,
    ObeyIn π.toAccess es →
    Gets R (fun cs => ∀ c ∈ cs, held c) (evalAll call r es) (evalAll call' r es)
  | [], _ => .pure fun _ hc => nomatch hc
  | e :: rest, ho => (h.eval e ho.1).bind fun _ hc => (h.evalAll rest ho.2).bind fun _ hcs =>
      .pure (forall_mem_cons.2 ⟨hc, hcs⟩)

theorem evalEntries (h : Conducts R entry permit call call' r π held) :
    ∀ es : List (Expr × Expr), ObeyInEntries π.toAccess es →
    Alike R (evalEntries call r es) (evalEntries call' r es)
  | [], _ => Alike.pure _
  | (key, e) :: rest, ho => by
    have hrest := h.evalEntries rest ho.2.2
    refine (h.eval key ho.1).bind_alike fun _ _ => (h.operate _).bind fun _ => ?_
    refine (h.eval e ho.2.1).bind_alike fun _ _ => (h.operate _).bind fun _ => ?_
    exact hrest.bind fun _ => Alike.pure _

theorem evalChain (h : Conducts R entry permit call call' r π held) :
    ∀ es : List (CompareOp × Expr), ObeyInOperands π.toAccess es →
    ∀ left, Alike R (evalChain call r left es) (evalChain call' r left es)
  | [], _, _ => Alike.pure _
  | (op, e) :: rest, ho, left => by
    have hrest := h.evalChain rest ho.2
    refine (h.eval e ho.1).bind_alike fun _ _ => (h.operate _).bind fun right => ?_
    refine (h.operate _).bind fun b => ?_
    exact Alike.ite (Alike.ite (Alike.pure _) (hrest right)) (Alike.pure _)

end

/-! ## Statements -/

theorem assignTarget (h : Conducts R entry permit call call' r π held) {target}
    (ho : target.Obeys π.toAccess) (v : Value) :
    Alike R (assignTarget r target v) (assignTarget r target v) := by
  unfold Script.assignTarget
  split
  · exact h.write _ _ (ho _ (by simp [Target.assigned])) (h.heldValue _)
  · exact (h.write _ _ (ho _ (by simp [Target.assigned])) (h.heldValue _)).bind fun _ =>
      h.write _ _ (ho _ (by simp [Target.assigned])) (h.heldValue _)
  · exact Alike.fail _

theorem runLoop (h : Conducts R entry permit call call' r π held) (limit : Nat)
    (source : Value) {round round'} (hround : ∀ v, Alike R (round v) (round' v)) :
    Alike R (runLoop limit source round) (runLoop limit source round') :=
  (Leads.runLoop h.toClosed (fun _ _ hw => hw) (fun v => .of_alike (hround v) fun _ _ hw => hw)
    limit source).alike

theorem captureAll (h : Conducts R entry permit call call' r π held) :
    ∀ es : List (Ident × Expr), (∀ p ∈ es, p.2.Obeys π.toAccess) →
    Gets R (fun cs => (∀ p ∈ cs, held p.2) ∧ cs.map (·.1) = es.map (·.1))
      (captureAll call r es) (captureAll call' r es)
  | [], _ => .pure ⟨fun _ hp => (nomatch hp), rfl⟩
  | (id, e) :: rest, ho => by
    refine (h.eval e (ho _ mem_cons_self)).bind fun c hc => ?_
    refine (h.captureAll rest fun p hp => ho p (mem_cons_of_mem _ hp)).bind fun cs hcs => ?_
    exact .pure ⟨forall_mem_cons.2 ⟨hc, hcs.1⟩, congrArg (id :: ·) hcs.2⟩

mutual

/-- A statement that obeys the policy. -/
theorem exec (h : Conducts R entry permit call call' r π held) (limit : Nat) :
    ∀ s : Stmt, s.Obeys π → Alike R (exec call limit r s) (exec call' limit r s)
  | .expr e, ho => (h.eval e ho).bind_alike fun _ _ => Alike.pure _
  | .assign id e, ho => (h.eval e ho.2).bind_alike fun c hc =>
      (h.write id c ho.1 hc).bind fun _ => Alike.pure _
  | .increment id e, ho => by
    refine (h.read id ho.1).bind_alike fun _ _ => (h.operate _).bind fun _ => ?_
    refine (h.eval e ho.2.2).bind_alike fun _ _ => (h.operate _).bind fun _ => ?_
    refine (h.operate _).bind fun v => ?_
    exact (h.write id (.value v) ho.2.1 (h.heldValue v)).bind fun _ => Alike.pure _
  | .ret e, ho => (h.eval e ho).bind_alike fun _ _ => Alike.pure _
  | .branch test body otherwise, ho => by
    have hb := h.execAll limit body ho.2.1
    have he := h.execAll limit otherwise ho.2.2
    refine (h.eval test ho.1).bind_alike fun _ _ => (h.operate _).bind fun _ => ?_
    exact h.toClosed.get_bind (fun _ => Alike.ite hb he) fun _ _ => rfl
  | .loop target source body, ho => by
    have hb := h.execAll limit body ho.2.2
    refine (h.eval source ho.2.1).bind_alike fun _ _ => (h.operate _).bind fun v => ?_
    exact h.runLoop limit v fun u => (h.assignTarget ho.1 u).bind fun _ => hb
  | .define name params captured body, ho => by
    refine (h.captureAll captured ho.2.1).bind_alike fun cs hcs => ?_
    have hdef := h.define name params cs body (hcs.2 ▸ ho.2.2) hcs.1
    have hdef := hdef.bind fun f => (h.write name (.value f) ho.1 (h.heldValue f)).bind fun _ =>
      Alike.pure (none : Option Cell)
    simpa [bind_assoc] using hdef
  | .pass, _ => Alike.pure _

theorem execAll (h : Conducts R entry permit call call' r π held) (limit : Nat) :
    ∀ body : List Stmt, ObeyInBody π body →
    Alike R (execAll call limit r body) (execAll call' limit r body)
  | [], _ => Alike.pure _
  | s :: rest, ho => by
    have hrest := h.execAll limit rest ho.2
    refine (h.exec limit s ho.1).bind fun result? => ?_
    cases result? with
    | some c => exact Alike.pure (some c)
    | none => exact hrest

end

end Conducts

end Stencil
