import Stencil.Proofs.Ownership

/-!
# Variables that nobody else reads

Two states are `Veiled` when they differ only in what one activation holds under `hidden`
identifiers, and no function of the state reads such an identifier from that activation. No call can
tell two such states apart (`Engine.veiled_call`): calls have the same results, make the same
changes and keep the states veiled.
-/

namespace Stencil

open Script Engine Store

variable {α : Type}

/-- Activations that differ only in what the activation `r` holds under `hidden` identifiers, where
no function reads these from `r`. -/
structure Veil (r : Ref) (hidden : Ident → Prop) (fs : Store Function)
    (acts acts' : Store Activation) : Prop where
  nesting : Scoped fs acts
  lt : r < acts.size
  size : acts'.size = acts.size
  other (q : Ref) : q ≠ r → acts'.get? q = acts.get? q
  own {a} : acts.get? r = some a → ∃ vars, acts'.get? r = some { a with vars } ∧
    ∀ id, ¬ hidden id → vars.find? id = a.vars.find? id
  unseen {q c o} : fs.get? q = some (.closure c) → c.outer = some o →
    ∀ id ∈ mentionedInBody c.body, hidden id → id ∉ c.owned → ownerOf acts id o ≠ some r

namespace Veil

variable {r : Ref} {hidden : Ident → Prop} {fs : Store Function} {acts acts' : Store Activation}
  (h : Veil r hidden fs acts acts')

include h

theorem shape_eq (q : Ref) : (acts'.get? q).map shape = (acts.get? q).map shape := by
  by_cases hq : q = r
  · subst hq
    obtain ⟨a, ha⟩ := exists_get?_of_lt h.lt
    obtain ⟨vars, ha', -⟩ := h.own ha
    rw [ha, ha']
    rfl
  · rw [h.other q hq]

theorem nested : Nested acts' := by
  intro q a o ha ho
  have hs := h.shape_eq q
  rw [ha] at hs
  obtain ⟨b, hb, hshape⟩ := Option.map_eq_some_iff.1 hs.symm
  exact h.nesting.activation hb ((Prod.mk.inj hshape).2.trans ho)

theorem ownerOf_eq (id : Ident) (q : Ref) : ownerOf acts' id q = ownerOf acts id q :=
  ownerOf_congr h.nesting.activation h.nested fun p _ => h.shape_eq p

/-- A new function that does not read hidden identifiers from `r`. -/
theorem pushFunction {f}
    (hf : ∀ c o, f = .closure c → c.outer = some o → o < acts.size ∧
      ∀ id ∈ mentionedInBody c.body, hidden id → id ∉ c.owned → ownerOf acts id o ≠ some r) :
    Veil r hidden (fs.push f) acts acts' where
  nesting := h.nesting.pushFunction fun c o hc ho => (hf c o hc ho).1
  lt := h.lt
  size := h.size
  other := h.other
  own := h.own
  unseen {q c o} hq ho := by
    rcases Nat.lt_or_ge q fs.size with hlt | hge
    · rw [fs.get?_push_of_lt f hlt] at hq
      exact h.unseen hq ho
    · have hlt := get?_eq_some_lt hq
      rw [size_push] at hlt
      obtain rfl := Nat.le_antisymm (Nat.le_of_lt_succ hlt) hge
      rw [fs.get?_push_self, Option.some.injEq] at hq
      exact (hf c o hq ho).2

/-- A new activation on both sides. -/
theorem pushActivation {a} (ha : ∀ o, a.outer = some o → o < acts.size) :
    Veil r hidden fs (acts.push a) (acts'.push a) where
  nesting := h.nesting.pushActivation ha
  lt := by
    rw [size_push]
    exact Nat.lt_succ_of_lt h.lt
  size := by rw [size_push, size_push, h.size]
  other q hq := by
    rcases Nat.lt_trichotomy q acts.size with hlt | rfl | hgt
    · rw [acts.get?_push_of_lt a hlt, acts'.get?_push_of_lt a (h.size ▸ hlt), h.other q hq]
    · rw [acts.get?_push_self, ← h.size, acts'.get?_push_self]
    · have hn (s : Store Activation) (hs : s.size = acts.size) : (s.push a).get? q = none :=
        get?_eq_none (by rw [size_push, hs]; exact hgt)
      rw [hn acts rfl, hn acts' h.size]
  own {b} hb := by
    rw [acts.get?_push_of_lt a h.lt] at hb
    rw [acts'.get?_push_of_lt a (h.size ▸ h.lt)]
    exact h.own hb
  unseen hq ho id hid hh hown := by
    have hlt := h.nesting.closure hq ho
    rw [ownerOf_extends h.nesting.activation (h.nesting.pushActivation ha).activation
      ((Extends.refl acts).push a) hlt]
    exact h.unseen hq ho id hid hh hown

/-- The functions of a module see their own activation only. -/
theorem load (m : Script.Module) {a} (ha : a.outer = none) :
    Veil r hidden (fs.append (m.functions.map fun f => .closure (f.closure acts.size)))
      (acts.push a) (acts'.push a) := by
  have hpush := h.pushActivation (a := a) fun o ho => by simp [ha] at ho
  refine { hpush with nesting := h.nesting.load m ha, unseen := ?_ }
  intro q c o hq ho
  rcases Nat.lt_or_ge q fs.size with hlt | hge
  · rw [fs.get?_append_of_lt _ hlt] at hq
    exact hpush.unseen hq ho
  · obtain ⟨i, rfl⟩ := Nat.exists_eq_add_of_le hge
    rw [fs.get?_append_add, List.getElem?_map, Option.map_eq_some_iff] at hq
    obtain ⟨f, -, hf⟩ := hq
    cases hf
    cases ho
    intro id _ _ _ hr
    rw [Script.ownerOf_eq hpush.nesting.activation (acts.get?_push_self a), ha] at hr
    split at hr
    · exact absurd h.lt (by rw [Option.some.inj hr]; exact Nat.lt_irrefl _)
    · cases hr

/-- A change of another activation that does not change how it is nested. -/
theorem modify {q} (hq : q ≠ r) {f} (hf : ∀ a, shape (f a) = shape a) :
    Veil r hidden fs (acts.modify q f) (acts'.modify q f) := by
  have hscoped := h.nesting.modify q fun a => congrArg Prod.snd (hf a)
  exact
    { nesting := hscoped
      lt := by rw [size_modify]; exact h.lt
      size := by rw [size_modify, size_modify, h.size]
      other := fun p hp => by
        by_cases hpq : q = p
        · subst hpq
          rw [acts.get?_modify_self, acts'.get?_modify_self, h.other q hq]
        · rw [acts.get?_modify_of_ne f hpq, acts'.get?_modify_of_ne f hpq, h.other p hp]
      own := fun ha => by
        rw [acts.get?_modify_of_ne f hq] at ha
        rw [acts'.get?_modify_of_ne f hq]
        exact h.own ha
      unseen := fun hc ho id hid hh hown => by
        rw [ownerOf_modify h.nesting.activation hf]
        exact h.unseen hc ho id hid hh hown }

/-- Assigning a hidden identifier of `r` on one side. -/
theorem assign {id} (hid : hidden id) (c : Cell) :
    Veil r hidden fs (acts.modify r (·.assign id c)) acts' where
  nesting := h.nesting.modify r fun _ => rfl
  lt := by rw [size_modify]; exact h.lt
  size := by rw [size_modify, h.size]
  other q hq := by rw [acts.get?_modify_of_ne _ (Ne.symm hq), h.other q hq]
  own ha := by
    rw [acts.get?_modify_self] at ha
    obtain ⟨b, hb, rfl⟩ := Option.map_eq_some_iff.1 ha
    obtain ⟨vars, hvars, hsame⟩ := h.own hb
    refine ⟨vars, hvars, fun i hi => ?_⟩
    have hne : i ≠ id := fun he => hi (he ▸ hid)
    exact (hsame i hi).trans (b.vars.find?_insert_of_ne hne c).symm
  unseen hc ho i hi hh hown := by
    rw [ownerOf_modify h.nesting.activation (f := (·.assign id c)) fun _ => rfl]
    exact h.unseen hc ho i hi hh hown

end Veil

/-! ## Calls do not see what is veiled -/

/-- States that differ at most in their activations, which are related by `S`. -/
def Twin (S : Store Function → Store Activation → Store Activation → Prop) (w w' : World) : Prop :=
  ∃ acts, w' = { w with activations := acts } ∧ S w.functions w.activations acts

theorem Twin.closed {S} (hsuper : ∀ fs acts acts' env r name next?, S fs acts acts' →
      S (fs.push (.superBlock env r name next?)) acts acts') :
    Closed (Twin S) anyEntry anyMethod where
  twin := fun ⟨acts, h, _⟩ => ⟨acts, h⟩
  rest := fun ⟨acts, h, hS⟩ _ _ _ => ⟨acts, by rw [h], hS⟩
  pushFrame := fun ⟨acts, h, hS⟩ _ => ⟨acts, by rw [h], hS⟩
  setFrame := fun ⟨acts, h, hS⟩ _ _ _ _ => ⟨acts, by rw [h], hS⟩
  pushContext := fun ⟨acts, h, hS⟩ _ _ => ⟨acts, by rw [h]; rfl, hS⟩
  entryFresh _ _ _ _ _ := trivial
  entryRest _ _ _ _ _ := trivial
  setContext := fun ⟨acts, h, hS⟩ _ _ _ => ⟨acts, by rw [h], hS⟩
  addBlock := fun ⟨acts, h, hS⟩ _ _ _ _ => ⟨acts, by rw [h], hS⟩
  pushSuper := fun ⟨acts, h, hS⟩ _ _ _ _ _ => ⟨acts, by rw [h], hsuper _ _ _ _ _ _ _ hS⟩
  entrySuper _ _ _ _ _ _ _ := trivial

/-- States that differ only in what the activation `r` holds under `hidden` identifiers. -/
abbrev Veiled (r : Ref) (hidden : Ident → Prop) : World → World → Prop :=
  Twin (Veil r hidden)

/-- Veiled states in which the activation `n` is another one and does not take the identifiers in
`known` from behind the veil. -/
structure VeilFrom (r : Ref) (hidden : Ident → Prop) (n : Ref) (known : Ident → Prop)
    (fs : Store Function) (acts acts' : Store Activation) : Prop
    extends Veil r hidden fs acts acts' where
  ne : n ≠ r
  exists_lt : n < acts.size
  clear (id : Ident) : known id → hidden id → ownerOf acts id n ≠ some r

namespace Veiled

variable {r : Ref} {hidden : Ident → Prop} {n : Ref} {known : Ident → Prop}

theorem closed : Closed (Veiled r hidden) anyEntry anyMethod :=
  Twin.closed fun _ _ _ _ _ _ _ h => h.pushFunction fun _ _ hf => nomatch hf

theorem closedFrom : Closed (Twin (VeilFrom r hidden n known)) anyEntry anyMethod :=
  Twin.closed fun _ _ _ _ _ _ _ h =>
    { h with toVeil := h.pushFunction fun _ _ hf => nomatch hf }

/-- An activation reads the same on both sides, if it does not take the identifier from behind the
veil. -/
theorem agree_read {acts w} (h : Veil r hidden w.functions w.activations acts) {id}
    (hid : hidden id → ownerOf w.activations id n ≠ some r) :
    (read n id).outcome { w with activations := acts } =
      (((read n id).outcome w).1, { w with activations := acts }) := by
  have howner : ownerOf acts id n = ownerOf w.activations id n := h.ownerOf_eq id n
  have hown : ownsIn acts n id = ownsIn w.activations n id := by
    have hshape := congrArg (Option.map fun s => s.1.contains id) (h.shape_eq n)
    rw [Option.map_map, Option.map_map] at hshape
    exact congrArg (Option.getD · false) hshape
  rw [outcome_read, outcome_read]
  simp only [howner, hown]
  cases hp : ownerOf w.activations id n with
  | none => cases coreFunction? id <;> rfl
  | some p =>
    simp only [Option.bind_some]
    by_cases hpr : p = r
    · -- The owner is behind the veil, so the identifier is not hidden.
      subst hpr
      obtain ⟨a, ha⟩ := exists_get?_of_lt h.lt
      obtain ⟨vars, ha', hvars⟩ := h.own ha
      have hid : ¬ hidden id := fun hh => hid hh hp
      simp only [ha, ha', hvars id hid]
      cases a.vars.find? id <;> rfl
    · simp only [h.other p hpr]
      cases w.activations.get? p with
      | none => cases coreFunction? id <;> rfl
      | some a => cases hv : a.vars.find? id <;> simp only [hv]

theorem alike_read {S} (hS : ∀ fs acts acts', S fs acts acts' → Veil r hidden fs acts acts') {id}
    (hid : ∀ fs acts acts', S fs acts acts' → hidden id → ownerOf acts id n ≠ some r) :
    Alike (Twin S) (read n id) (read n id) := by
  rintro w _ ⟨acts, rfl, h⟩
  have hw : (read n id).outcome w = (((read n id).outcome w).1, w) :=
    Prod.ext rfl (snd_outcome_read n id w)
  rw [agree_read (hS _ _ _ h) (hid _ _ _ h), hw]
  cases ((read n id).outcome w).1 with
  | ok c => exact .ok ⟨rfl, acts, rfl, h⟩
  | error e => exact .error ⟨acts, rfl, h⟩

/-- What a script may do in another activation. -/
theorem runs : Runs (Twin (VeilFrom r hidden n known)) n known where
  read id hid := alike_read (fun _ _ _ h => h.toVeil) fun _ _ _ h => h.clear id hid
  write id c := by
    rintro w _ ⟨acts, rfl, h⟩
    have hveil := h.toVeil.modify h.ne (f := (·.assign id c)) fun _ => rfl
    refine .ok ⟨rfl, _, rfl, { hveil with ne := h.ne, exists_lt := ?_, clear := ?_ }⟩
    · rw [size_modify]
      exact h.exists_lt
    · intro i hi hh
      rw [ownerOf_modify h.nesting.activation (f := (·.assign id c)) fun _ => rfl]
      exact h.clear i hi hh
  define name params captured body hknown := by
    rintro w _ ⟨acts, rfl, h⟩
    have hname : innerName { w with activations := acts } n name = innerName w n name := by
      unfold innerName
      rw [h.other n h.ne]
    have hc : closureIn { w with activations := acts } n name params captured body =
        closureIn w n name params captured body := by
      unfold closureIn
      rw [hname]
    rw [Eval.outcome_get_bind, Eval.outcome_get_bind, hc]
    refine .ok ⟨rfl, acts, rfl, { h with toVeil := h.pushFunction ?_ }⟩
    intro c o hc ho
    cases hc
    cases ho
    exact ⟨h.exists_lt, fun i hi hh hown => h.clear i (hknown i hi hown) hh⟩

/-- A computation that works in activations of its own leaves what another activation takes from
where. -/
theorem alikeFrom {x y : Eval α} (h : Alike (Veiled r hidden) x y)
    (hx : ∀ base, Alike (Holding base) x x) : Alike (Twin (VeilFrom r hidden n known)) x y := by
  rintro w _ ⟨acts, rfl, hw⟩
  have back {u u' : World} (he : Extends w.activations u.activations) (hu : Veiled r hidden u u') :
      Twin (VeilFrom r hidden n known) u u' := by
    obtain ⟨acts', rfl, hv⟩ := hu
    refine ⟨acts', rfl, { hv with ne := hw.ne, exists_lt := ?_, clear := ?_ }⟩
    · exact Nat.lt_of_lt_of_le hw.exists_lt he.1
    · intro id hid hh
      rw [ownerOf_extends hw.nesting.activation hv.nesting.activation he hw.exists_lt]
      exact hw.clear id hid hh
  have hext := Extends.of_holding hx w
  obtain ⟨a, b, u, u', hu, hu', rfl, hv⟩ | ⟨e, u, u', hu, hu', hv⟩ :=
    (h w _ ⟨acts, rfl, hw.toVeil⟩).results_or_halt
  · rw [hu, hu']
    rw [hu] at hext
    exact .ok ⟨rfl, back hext hv⟩
  · rw [hu, hu']
    rw [hu] at hext
    exact .error (back hext hv)

theorem callsFrom {call call' : Call}
    (hc : CallsAlike (Veiled r hidden) anyEntry anyMethod call call') (hs : call.Steady) :
    CallsAlike (Twin (VeilFrom r hidden n known)) anyEntry anyMethod call call' where
  value f args := alikeFrom (hc.value f args) fun base => (hs base).value f args
  enter e env c f w w' h :=
    alikeFrom (hc.enter_any e env c f) (fun base => (hs base).enter_any e env c f) w w' h.1
  method self field args h :=
    alikeFrom (hc.method self field args h) fun base => (hs base).method self field args h

/-- The activation of a function of the state takes nothing from behind the veil. -/
theorem veilFrom_push {fs acts acts'} (h : Veil r hidden fs acts acts') {q c}
    (hq : fs.get? q = some (.closure c)) (args : List Cell) :
    VeilFrom r hidden acts.size (· ∈ mentionedInBody c.body) fs (acts.push (c.activation args))
      (acts'.push (c.activation args)) := by
  have hpush := h.pushActivation (a := c.activation args) fun o ho => h.nesting.closure hq ho
  refine { hpush with ne := (Nat.ne_of_lt h.lt).symm, exists_lt := ?_, clear := ?_ }
  · rw [size_push]
    exact Nat.lt_succ_self _
  · intro id hid hh howner
    rw [ownerOf_eq hpush.nesting.activation (acts.get?_push_self _)] at howner
    split at howner
    · exact Nat.ne_of_lt h.lt (Option.some.inj howner).symm
    · rename_i hown
      obtain ⟨o, ho, howner⟩ := Option.bind_eq_some_iff.1 howner
      rw [ownerOf_extends h.nesting.activation hpush.nesting.activation
        ((Extends.refl acts).push _) (h.nesting.closure hq ho)] at howner
      exact h.unseen hq ho id hid hh (mt List.contains_iff_mem.2 hown) howner

/-- No script function can tell veiled states apart. -/
theorem kept : Kept (Veiled r hidden) anyEntry anyMethod fun call _ => call.Steady where
  toClosed := closed
  load := by
    refine closed.getTemplate (fun m _ => ?_) fun t => ?_
    · rintro w _ ⟨acts, rfl, h⟩
      refine .ok ⟨rfl, _, ?_, h.load m rfl⟩
      simp only [h.size]
    · rintro w _ ⟨acts, rfl, h⟩
      exact .ok ⟨rfl, _, rfl, h⟩
  closure hc hg limit q c args := by
    refine coupled_callClosure closed (fun _ _ h => h.1) limit c args ?_
    rintro w _ ⟨⟨acts, rfl, h⟩, hq, -⟩
    have hrun := Runs.execAll closedFrom (callsFrom hc hg) runs limit c.body (fun _ hid => hid)
      (w.activate c args)
      { w with activations := acts.push (c.activation args) } ⟨_, rfl, veilFrom_push h hq args⟩
    rw [h.size]
    exact hrun.mono (fun _ _ _ _ ⟨h, acts, hw, hv⟩ => ⟨h, acts, hw, hv.toVeil⟩)
      fun _ _ ⟨acts, hw, hv⟩ => ⟨acts, hw, hv.toVeil⟩

end Veiled

theorem Engine.veiled_call (r : Ref) (hidden : Ident → Prop) (fuel : Nat) :
    CallsAlike (Veiled r hidden) anyEntry anyMethod (call fuel) (call fuel) :=
  Veiled.kept.callsAlike_call steady_call fuel

end Stencil
