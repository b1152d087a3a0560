import Stencil.Proofs.Activation

/-!
# Who owns an identifier

An identifier belongs to the innermost activation around the running one that owns it. In a state in
which activations are nested in older ones, the search for it needs no bound (`ownerOf_eq`), and it
sees only how older activations are nested (`ownerOf_congr`, `ownerOf_extends`).
-/

namespace Stencil.Script

variable {acts acts' : Store Activation} {id : Ident}

/-- The reference of the activation that owns an identifier, looking at no more activations than the
first argument says. -/
def ownerFrom (acts : Store Activation) (id : Ident) : Nat → Ref → Option Ref
  | 0, _ => none
  | fuel + 1, r =>
    match acts.get? r with
    | none => none
    | some a =>
      if a.owned.contains id then some r
      else
        match a.outer with
        | some o => ownerFrom acts id fuel o
        | none => none

/-- The activation that owns an identifier, as seen from an activation. -/
def ownerOf (acts : Store Activation) (id : Ident) (r : Ref) : Option Ref :=
  ownerFrom acts id (r + 1) r

theorem owner?_eq (w : World) (id : Ident) (fuel : Nat) (r : Ref) :
    owner? w id fuel r = (ownerFrom w.activations id fuel r).bind w.activations.get? := by
  induction fuel generalizing r with
  | zero => rfl
  | succ fuel ih =>
    simp only [owner?, ownerFrom]
    cases ha : w.activations.get? r with
    | none => rfl
    | some a =>
      dsimp only
      split
      · exact ha.symm
      · cases a.outer with
        | none => rfl
        | some o => exact ih o

/-- Activations are nested in older ones. -/
def Nested (acts : Store Activation) : Prop :=
  ∀ {r : Ref} {a : Activation} {o : Ref}, acts.get? r = some a → a.outer = some o → o < r

theorem Nested.assign (h : Nested acts) (r : Ref) (id : Ident) (cell : Cell) :
    Nested (acts.modify r (·.assign id cell)) := by
  intro q a o hq ho
  by_cases hr : r = q
  · subst hr
    rw [acts.get?_modify_self, Option.map_eq_some_iff] at hq
    obtain ⟨b, hb, rfl⟩ := hq
    exact h hb ho
  · rw [acts.get?_modify_of_ne _ hr] at hq
    exact h hq ho

/-- With enough fuel the search ends by itself. -/
theorem ownerFrom_eq (h : Nested acts) : ∀ {fuel : Nat} {r : Ref}, r < fuel →
    ownerFrom acts id fuel r = ownerOf acts id r := by
  intro fuel
  induction fuel using Nat.strongRecOn with
  | ind fuel ih =>
    intro r hr
    obtain ⟨fuel, rfl⟩ := Nat.exists_eq_succ_of_ne_zero (Nat.ne_zero_of_lt hr)
    unfold ownerOf
    simp only [ownerFrom]
    cases ha : acts.get? r with
    | none => rfl
    | some a =>
      dsimp only
      split
      · rfl
      · cases ho : a.outer with
        | none => rfl
        | some o =>
          -- Both searches go on from an older activation, one of them with less fuel.
          have hlt : o < r := h ha ho
          dsimp only
          rw [ih fuel (Nat.lt_succ_self _) (Nat.lt_of_lt_of_le hlt (Nat.le_of_lt_succ hr))]
          rcases Nat.lt_or_eq_of_le (Nat.le_of_lt_succ hr) with hr | rfl
          · rw [ih r (Nat.lt_succ_of_lt hr) hlt]
          · rw [ih r (Nat.lt_succ_self _) hlt]

variable {r : Ref} {a : Activation} {w : World} {id : Ident}

theorem ownerOf_eq (h : Nested acts) (ha : acts.get? r = some a) : ownerOf acts id r =
      if a.owned.contains id then some r else a.outer.bind fun o => ownerOf acts id o := by
  show ownerFrom acts id (r + 1) r = _
  simp only [ownerFrom, ha]
  split
  · rfl
  · cases ho : a.outer with
    | none => rfl
    | some o => exact ownerFrom_eq h (h ha ho)

theorem ownerOf_eq_self (h : Nested acts) (ha : acts.get? r = some a) (hid : id ∈ a.owned) :
    ownerOf acts id r = some r := by
  rw [ownerOf_eq h ha, if_pos (List.contains_iff_mem.2 hid)]

theorem ownerOf_eq_outer (h : Nested acts) (ha : acts.get? r = some a) (hid : id ∉ a.owned) :
    ownerOf acts id r = a.outer.bind fun o => ownerOf acts id o := by
  rw [ownerOf_eq h ha, if_neg (mt List.contains_iff_mem.1 hid)]

theorem ownerOf_le (h : Nested acts) {p} (hp : ownerOf acts id r = some p) : p ≤ r := by
  induction r using Nat.strongRecOn with
  | ind r ih =>
    cases ha : acts.get? r with
    | none => simp [ownerOf, ownerFrom, ha] at hp
    | some a =>
      rw [ownerOf_eq h ha] at hp
      split at hp
      · exact Nat.le_of_eq (Option.some.inj hp).symm
      · obtain ⟨o, ho, hp⟩ := Option.bind_eq_some_iff.1 hp
        exact Nat.le_trans (ih o (h ha ho) hp) (Nat.le_of_lt (h ha ho))

theorem owns_of_ownerOf (h : Nested acts) {p} (hp : ownerOf acts id r = some p) :
    ∃ a, acts.get? p = some a ∧ id ∈ a.owned := by
  induction r using Nat.strongRecOn with
  | ind r ih =>
    cases ha : acts.get? r with
    | none => simp [ownerOf, ownerFrom, ha] at hp
    | some a =>
      rw [ownerOf_eq h ha] at hp
      split at hp
      · rename_i hid
        obtain rfl := Option.some.inj hp
        exact ⟨a, ha, List.contains_iff_mem.1 hid⟩
      · obtain ⟨o, ho, hp⟩ := Option.bind_eq_some_iff.1 hp
        exact ih o (h ha ho) hp

/-- How an activation takes part in the search for owners. -/
def shape (a : Activation) : List Ident × Option Ref :=
  (a.owned, a.outer)

/-- The search for an owner sees only how the older activations are nested. -/
theorem ownerOf_congr (h : Nested acts) (h' : Nested acts')
    (hs : ∀ q ≤ r, (acts'.get? q).map shape = (acts.get? q).map shape) :
    ownerOf acts' id r = ownerOf acts id r := by
  induction r using Nat.strongRecOn with
  | ind r ih =>
    have hr := hs r (Nat.le_refl r)
    cases ha : acts.get? r with
    | none =>
      rw [ha, Option.map_none, Option.map_eq_none_iff] at hr
      simp [ownerOf, ownerFrom, ha, hr]
    | some a =>
      rw [ha, Option.map_some, Option.map_eq_some_iff] at hr
      obtain ⟨a', ha', hshape⟩ := hr
      obtain ⟨howned, houter⟩ := Prod.mk.inj hshape
      rw [ownerOf_eq h ha, ownerOf_eq h' ha', howned, houter]
      split
      · rfl
      · cases ho : a.outer with
        | none => rfl
        | some o =>
          exact ih o (h ha ho) fun q hq => hs q (Nat.le_trans hq (Nat.le_of_lt (h ha ho)))

theorem ownerOf_extends (h : Nested acts) (h' : Nested acts') (he : Extends acts acts')
    (hr : r < acts.size) : ownerOf acts' id r = ownerOf acts id r :=
  ownerOf_congr h h' fun q hq => by rw [he.2 q (Nat.lt_of_le_of_lt hq hr)]

theorem ownerOf_modify (h : Nested acts) {q f} (hf : ∀ a, shape (f a) = shape a) :
    ownerOf (acts.modify q f) id r = ownerOf acts id r := by
  have hs (p : Ref) : ((acts.modify q f).get? p).map shape = (acts.get? p).map shape := by
    by_cases hp : q = p
    · subst hp
      rw [acts.get?_modify_self]
      cases acts.get? q with
      | none => rfl
      | some a => exact congrArg some (hf a)
    · rw [acts.get?_modify_of_ne f hp]
  refine ownerOf_congr h ?_ fun p _ => hs p
  intro p a o ha ho
  obtain ⟨b, hb, hshape⟩ := Option.map_eq_some_iff.1 ((hs p).symm.trans (congrArg _ ha))
  exact h hb ((Prod.mk.inj hshape).2.trans ho)

/-! ## Reading and writing -/

/-- Whether an activation owns an identifier itself. -/
def ownsIn (acts : Store Activation) (r : Ref) (id : Ident) : Bool :=
  ((acts.get? r).map fun a => a.owned.contains id).getD false

/-- What reading an identifier gives. -/
theorem outcome_read (r : Ref) (id : Ident) (w : World) : (read r id).outcome w =
      match (ownerOf w.activations id r).bind w.activations.get? with
      | some a =>
        match a.vars.find? id with
        | some c => (.ok c, w)
        | none =>
          (.error (.fault (if ownsIn w.activations r id then .unboundLocal id
            else .unboundFree id)), w)
      | none =>
        match coreFunction? id with
        | some c => (.ok c, w)
        | none => (.error (.fault (.undefined id)), w) := by
  unfold read
  rw [Eval.outcome_get_bind, owner?_eq]
  show _ = match (ownerFrom w.activations id (r + 1) r).bind w.activations.get? with
    | some a => _
    | none => _
  cases (ownerFrom w.activations id (r + 1) r).bind w.activations.get? with
  | some a => cases hv : a.vars.find? id <;> simp only [hv] <;> rfl
  | none => cases coreFunction? id <;> rfl

/-- What an identifier holds, if it is assigned where it belongs or is known to every module. -/
def reads? (w : World) (r : Ref) (id : Ident) : Option Cell :=
  match (ownerOf w.activations id r).bind w.activations.get? with
  | some a => a.vars.find? id
  | none => coreFunction? id

theorem reads?_of_owner {o} (howner : ownerOf w.activations id r = some o)
    (ha : w.activations.get? o = some a) : reads? w r id = a.vars.find? id := by
  simp only [reads?, howner, Option.bind_some, ha]

theorem reads?_own (ha : w.activations.get? r = some a) (hid : id ∈ a.owned) :
    reads? w r id = a.vars.find? id := by
  refine reads?_of_owner ?_ ha
  unfold ownerOf
  rw [ownerFrom, ha]
  exact if_pos (List.contains_iff_mem.2 hid)

/-- An identifier that no activation owns is one that every module knows. -/
theorem reads?_of_unowned (howner : ownerOf w.activations id r = none) :
    reads? w r id = coreFunction? id := by
  simp only [reads?, howner, Option.bind_none]

/-- What reading gives is held by a variable of the owner, or it is known to every module. -/
theorem held_or_core_of_read {c u} (h : (read r id).outcome w = (.ok c, u)) :
    (∃ q a, ownerOf w.activations id r = some q ∧ w.activations.get? q = some a ∧
      a.vars.find? id = some c) ∨ ∃ f, c = .core f := by
  rw [outcome_read] at h
  cases howner : (ownerOf w.activations id r).bind w.activations.get? with
  | none =>
    rw [howner] at h
    cases id <;> simp only [coreFunction?] at h <;> cases h <;> exact .inr ⟨_, rfl⟩
  | some a =>
    obtain ⟨q, hq, ha⟩ := Option.bind_eq_some_iff.1 howner
    rw [howner] at h
    cases hfind : a.vars.find? id <;> simp only [hfind] at h <;> cases h
    exact .inl ⟨q, a, hq, ha, hfind⟩

theorem outcome_read_of_reads? {c} (h : reads? w r id = some c) :
    (read r id).outcome w = (.ok c, w) := by
  unfold reads? at h
  rw [outcome_read]
  split at h <;> simp only [h]

/-- A method of the context that a variable holds. -/
theorem gets_contextMethod {P : World → Prop} {call call' c}
    (hread : ∀ w, P w → (read r .context).outcome w = (.ok (.context c), w)) (field : Attr) :
    Gets (Always P) (· = .method (.context c) field)
      (eval call r (.attr (.name .context) field))
      (eval call' r (.attr (.name .context) field)) := by
  rintro _ w ⟨rfl, hw⟩
  show Agree _ _ ((read r .context >>= fun x => fieldOf x field).outcome w)
    ((read r .context >>= fun x => fieldOf x field).outcome w)
  have hfield : Gets (Always P) (· = .method (.context c) field) (fieldOf (.context c) field)
      (fieldOf (.context c) field) := Gets.ite (.pure rfl) (.fail _)
  rw [Eval.outcome_bind_of_ok (hread w hw)]
  exact hfield w w ⟨rfl, hw⟩

@[simp]
theorem outcome_write (r : Ref) (id : Ident) (c : Cell) (w : World) : (write r id c).outcome w =
      (.ok (), w.assign r id c) := rfl

theorem reads?_extends {u} (h : Nested w.activations) (h' : Nested u.activations)
    (he : Extends w.activations u.activations) (hr : r < w.activations.size) :
    reads? u r id = reads? w r id := by
  unfold reads?
  rw [ownerOf_extends h h' he hr]
  cases hp : ownerOf w.activations id r with
  | none => rfl
  | some p => rw [Option.bind_some, Option.bind_some,
      he.2 p (Nat.lt_of_le_of_lt (ownerOf_le h hp) hr)]

theorem reads?_assign_self (c : Cell) (h : Nested w.activations)
    (ha : w.activations.get? r = some a) (hid : id ∈ a.owned) :
    reads? (w.assign r id c) r id = some c := by
  unfold reads?
  rw [ownerOf_modify h (f := (·.assign id c)) fun _ => rfl, ownerOf_eq_self h ha hid,
    Option.bind_some, w.activations.get?_modify_self, ha]
  exact a.vars.find?_insert_self id c

/-- Assigning an identifier does not change what others hold. -/
theorem reads?_assign_of_ne {other} (c : Cell) (h : Nested w.activations) (hne : other ≠ id) :
    reads? (w.assign r id c) r other =
      reads? w r other := by
  unfold reads?
  rw [ownerOf_modify h (f := (·.assign id c)) fun _ => rfl]
  cases ownerOf w.activations other r with
  | none => rfl
  | some p =>
    rw [Option.bind_some, Option.bind_some]
    by_cases hp : r = p
    · subst hp
      rw [w.activations.get?_modify_self]
      cases w.activations.get? r with
      | none => rfl
      | some a => exact a.vars.find?_insert_of_ne hne c
    · rw [w.activations.get?_modify_of_ne _ hp]

end Stencil.Script
