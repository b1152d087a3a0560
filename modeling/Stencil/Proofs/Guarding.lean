import Stencil.Proofs.Public

/-!
# Operations on public lists

Operations that are given values which refer to public lists only find and make nothing else, and
lists that are not public keep their content. `Operation.Guards` says so for one operation; the
lists that it makes are public afterwards. Most operations make new objects and leave all lists and
dictionaries alone that are there; `Guards` says whether an operation is of this kind. Only the
methods that change a list or a dictionary and the binding of a dictionary entry are not. One-shot
iterators may be used up.
-/

namespace Stencil

open Eval List Store

variable {o' : Objects} {d : Dict} {t : Traversal} {c : Prop}

variable {α β : Type} {C : Prop} {P P' : Lists}

/-! ## Steps -/

/-- Among the objects `o'` are all lists and dictionaries of `o`, with the same content, and the
same records. -/
structure Objects.Grown (o o' : Objects) : Prop where
  lists : Extends o.lists o'.lists
  dicts : Extends o.dicts o'.dicts
  records : o'.records = o.records

namespace Objects.Grown

variable {o : Objects}

theorem refl (o : Objects) : Grown o o :=
  ⟨.refl _, .refl _, rfl⟩

theorem trans {o''} (h : Grown o o') (h' : Grown o' o'') : Grown o o'' :=
  ⟨h.lists.trans h'.lists, h.dicts.trans h'.dicts, h'.records.trans h.records⟩

theorem of_eq (hlists : o'.lists = o.lists) (hdicts : o'.dicts = o.dicts)
    (hrecords : o'.records = o.records) : Grown o o' :=
  ⟨hlists ▸ .refl _, hdicts ▸ .refl _, hrecords⟩

theorem pushDict (o : Objects) (d : Dict) : Grown o { o with dicts := o.dicts.push d } :=
  ⟨.refl _, (Extends.refl o.dicts).push d, rfl⟩

end Objects.Grown

/-- The objects `o'` and the public lists `P'` come later than `o` and `P`: a list that was there is
public just if it was before, and keeps its content if it is not. No dictionary is gone, and public
lists exist if they did before. If `C` holds, no list and no dictionary has changed. -/
structure Objects.Later (C : Prop) (P : Lists) (o : Objects) (P' : Lists) (o' : Objects) :
    Prop where
  mono : ∀ l, P l → P' l
  size : o.lists.size ≤ o'.lists.size
  hidden : ∀ l, l < o.lists.size → P' l → P l
  kept : ∀ l, l < o.lists.size → ¬P l → o'.lists.get? l = o.lists.get? l
  dicts : o.dicts.size ≤ o'.dicts.size
  exist : (∀ l, P l → l < o.lists.size) → ∀ l, P' l → l < o'.lists.size
  grown : C → o.Grown o'

namespace Objects.Later

variable {o : Objects}

variable {o' : Objects}

theorem of_lists_eq (hlists : o'.lists = o.lists) (hdicts : o.dicts.size ≤ o'.dicts.size)
    (hgrown : C → o.Grown o') : Later C P o P o' where
  mono _ h := h
  size := Nat.le_of_eq (congrArg Store.size hlists).symm
  hidden _ _ h := h
  kept _ _ _ := by rw [hlists]
  dicts := hdicts
  exist h := hlists ▸ h
  grown := hgrown

theorem of_grown (h : o.Grown o' ∧ o'.lists = o.lists) : Later C P o P o' :=
  of_lists_eq h.2 h.1.dicts.1 fun _ => h.1

theorem refl (P : Lists) (o : Objects) : Later C P o P o :=
  of_grown ⟨.refl o, rfl⟩

theorem trans {P'' o''} (h : Later C P o P' o') (h' : Later C P' o' P'' o'') :
    Later C P o P'' o'' where
  mono l hl := h'.mono l (h.mono l hl)
  size := Nat.le_trans h.size h'.size
  hidden l hlt hl := h.hidden l hlt (h'.hidden l (Nat.lt_of_lt_of_le hlt h.size) hl)
  kept l hlt hl := by
    rw [h'.kept l (Nat.lt_of_lt_of_le hlt h.size) fun hp => hl (h.hidden l hlt hp)]
    exact h.kept l hlt hl
  dicts := Nat.le_trans h.dicts h'.dicts
  exist hP := h'.exist (h.exist hP)
  grown hC := (h.grown hC).trans (h'.grown hC)

end Objects.Later

/-! ## Objects after a change -/

namespace Objects.Holds

variable {o : Objects}

/-- Only what values are found in matters. -/
theorem congr (ho : o.Holds P) (hlists : o'.lists = o.lists) (hdicts : o'.dicts = o.dicts)
    (hcursors : o'.cursors = o.cursors) (hgenerators : o'.generators = o.generators)
    (hrecords : o'.records = o.records) :
    o'.Holds P where
  lists := hlists ▸ ho.lists
  dicts := hdicts ▸ ho.dicts
  cursors := hcursors ▸ ho.cursors
  generators := hgenerators ▸ ho.generators
  records := hrecords ▸ ho.records

theorem mono (ho : o.Holds P) (h : ∀ l, P l → P' l) : o.Holds P' where
  lists r items hr v hv := (ho.lists r items hr v hv).mono h
  dicts r d hr := (ho.dicts r d hr).mono h
  cursors r rest hr v hv := (ho.cursors r rest hr v hv).mono h
  generators r t hr := (ho.generators r t hr).mono h
  records r t hr := (ho.records r t hr).mono h

theorem pushHidden (ho : o.Holds P) {items} (hitems : ∀ v ∈ items.toList, v.Within P) :
    { o with lists := o.lists.push items }.Holds P :=
  { ho with
    lists := fun r vs hr v hv => by
      rcases get?_push_eq_some hr with hr | rfl
      · exact ho.lists r vs hr v hv
      · exact hitems v hv }

theorem changeList (ho : o.Holds P) {lists r} (hne : ∀ l, r ≠ l → lists.get? l = o.lists.get? l)
    (h : ∀ items, lists.get? r = some items → ∀ v ∈ items.toList, v.Within P) :
    { o with lists }.Holds P :=
  { ho with
    lists := fun l items hl => by
      by_cases hr : r = l
      · exact h items (hr ▸ hl)
      · exact ho.lists l items (hne l hr ▸ hl) }

theorem pushDict (ho : o.Holds P) (h : PairsWithin P d.entries) :
    { o with dicts := o.dicts.push d }.Holds P :=
  { ho with
    dicts := fun r d' hr => by
      rcases get?_push_eq_some hr with hr | rfl
      · exact ho.dicts r d' hr
      · exact h }

theorem setDict (ho : o.Holds P) (r : Ref) (h : PairsWithin P d.entries) :
    { o with dicts := o.dicts.set r d }.Holds P :=
  { ho with
    dicts := fun q d' hq => by
      rcases get?_set_eq_some hq with hq | rfl
      · exact ho.dicts q d' hq
      · exact h }

theorem setCursor (ho : o.Holds P) (r : Ref) {rest} (h : ∀ v ∈ rest, v.Within P) :
    { o with cursors := o.cursors.set r rest }.Holds P :=
  { ho with
    cursors := fun q rest' hq => by
      rcases get?_set_eq_some hq with hq | rfl
      · exact ho.cursors q rest' hq
      · exact h }

theorem setGenerator (ho : o.Holds P) (r : Ref) (h : t.Within P) :
    { o with generators := o.generators.set r t }.Holds P :=
  { ho with
    generators := fun q t' hq => by
      rcases get?_set_eq_some hq with hq | rfl
      · exact ho.generators q t' hq
      · exact h }

theorem pushGenerator (ho : o.Holds P) (h : t.Within P) :
    { o with generators := o.generators.push t }.Holds P :=
  { ho with
    generators := fun q t' hq => by
      rcases get?_push_eq_some hq with hq | rfl
      · exact ho.generators q t' hq
      · exact h }

end Objects.Holds

theorem Objects.Within.pushHidden {o : Objects} (ho : o.Within P) {items}
    (hitems : ∀ v ∈ items.toList, v.Within P) :
    { o with lists := o.lists.push items }.Within P := by
  refine (ho.holds.pushHidden hitems).within fun l hl => ?_
  rw [size_push]
  exact Nat.lt_succ_of_lt (ho.exist l hl)

/-! ## Operations -/

/-- An operation keeps to public lists: from objects that refer to them only, it leaves such
objects, and `Q` holds of its result. If `C` holds, it changes no list and no dictionary that is
there. -/
def Operation.Guards (C : Prop) (P : Lists) (Q : Lists → α → Prop) (x : Operation α) : Prop :=
  ∀ s o, s.Within P → o.Holds P →
    ∃ P', Objects.Later C P o P' (x.perform s o).2 ∧ (x.perform s o).2.Holds P' ∧
      ∀ a, (x.perform s o).1 = .ok a → Q P' a

/-- An operation that changes nothing. -/
def Operation.Looks (x : Operation α) : Prop :=
  ∀ s o, (x.perform s o).2 = o

/-- An operation that fails and changes nothing. -/
def Operation.Fails (x : Operation α) : Prop :=
  ∀ s o, ∃ e, x.perform s o = (.error e, o)

/-- A result of which there is nothing to say. -/
def Lists.any (_ : Lists) (_ : α) : Prop :=
  True

namespace Operation

section Rules

variable {Q : Lists → α → Prop} {R : Lists → β → Prop} {x : Operation α} {f : α → Operation β}

namespace Looks

protected theorem pure (a : α) : Looks (pure a) :=
  fun _ _ => rfl

protected theorem fail (e : Fault) : Looks (fail e : Operation α) :=
  fun _ _ => rfl

theorem bind (hx : Looks x) (hf : ∀ a, Looks (f a)) : Looks (x >>= f) := by
  intro s o
  have ho := hx s o
  rw [perform_bind]
  rcases hr : x.perform s o with ⟨_ | a, o'⟩ <;> rw [hr] at ho
  · exact ho
  · cases ho
    exact hf a s _

theorem heap_bind {g : Heap → Operation β} (hg : ∀ w, Looks (g w)) : Looks (heap >>= g) :=
  fun s o => hg ⟨o, s⟩ s o

theorem ofExcept (e : Except Fault α) : Looks (Eval.ofExcept e : Operation α) := by
  cases e with
  | ok a => exact Looks.pure a
  | error f => exact Looks.fail f

theorem ite [Decidable c] {y} (hx : Looks x) (hy : Looks y) : Looks (if c then x else y) := by
  split
  · exact hx
  · exact hy

theorem unless_fail [Decidable c] (e : Fault) {k : PUnit → Operation α} (hk : Looks (k ⟨⟩)) :
    Looks (if c then (fail e : Operation PUnit) >>= k else k ⟨⟩) :=
  .ite (.bind (.fail e) fun _ => hk) hk

theorem mapM {g : α → Operation β} (hg : ∀ a, Looks (g a)) (l : List α) : Looks (l.mapM g) := by
  induction l with
  | nil => exact Looks.pure []
  | cons a rest ih =>
    rw [mapM_cons]
    exact (hg a).bind fun b => ih.bind fun bs => Looks.pure (b :: bs)

theorem guards (hx : Looks x) : Guards C P Lists.any x := by
  intro s o hs ho
  rw [hx s o]
  exact ⟨P, .refl P o, ho, fun _ _ => trivial⟩

theorem guards_bind (hx : Looks x) (hf : ∀ a, Guards C P R (f a)) : Guards C P R (x >>= f) := by
  intro s o hs ho
  have hsame := hx s o
  rw [perform_bind]
  rcases hr : x.perform s o with ⟨e | a, o'⟩ <;> rw [hr] at hsame <;> cases hsame
  · exact ⟨P, .refl P _, ho, fun _ h => nomatch h⟩
  · exact hf a s _ hs ho

end Looks

protected theorem Fails.fail (e : Fault) : Fails (fail e : Operation α) :=
  fun _ _ => ⟨e, rfl⟩

theorem Fails.guards (hx : Fails x) : Guards C P Q x := by
  intro s o _ ho
  obtain ⟨e, he⟩ := hx s o
  rw [he]
  exact ⟨P, .refl P o, ho, fun _ h => nomatch h⟩

namespace Guards

protected theorem pure {a} (h : Q P a) : Guards C P Q (pure a) :=
  fun _ o _ ho => ⟨P, .refl P o, ho, fun _ hb => by cases hb; exact h⟩

protected theorem fail (e : Fault) : Guards C P Q (fail e : Operation α) :=
  (Fails.fail e).guards

theorem bind (hx : Guards C P Q x)
    (hf : ∀ P' a, (∀ l, P l → P' l) → Q P' a → Guards C P' R (f a)) : Guards C P R (x >>= f) := by
  intro s o hs ho
  obtain ⟨P', hlater, ho', hQ⟩ := hx s o hs ho
  rw [perform_bind]
  rcases hr : x.perform s o with ⟨e | a, o'⟩ <;> rw [hr] at hlater ho' hQ
  · exact ⟨P', hlater, ho', fun _ h => nomatch h⟩
  · obtain ⟨P'', hlater', ho'', hR⟩ := hf P' a hlater.mono (hQ a rfl) s o' (hs.mono hlater.mono) ho'
    exact ⟨P'', hlater.trans hlater', ho'', hR⟩

theorem weaken {Q'} (hx : Guards C P Q x) (h : ∀ P' a, Q P' a → Q' P' a) : Guards C P Q' x := by
  intro s o hs ho
  obtain ⟨P', hlater, ho', hQ⟩ := hx s o hs ho
  exact ⟨P', hlater, ho', fun a ha => h P' a (hQ a ha)⟩

theorem fail_bind (e : Fault) (f : α → Operation β) : Guards C P R (fail e >>= f) :=
  (Guards.fail (Q := fun _ _ => False) e).bind fun _ _ _ h => h.elim

theorem ite [Decidable c] {y} (hx : c → Guards C P Q x) (hy : ¬c → Guards C P Q y) :
    Guards C P Q (if c then x else y) := by
  split
  · exact hx ‹_›
  · exact hy ‹_›

theorem heap_bind {g} (hg : ∀ w : Heap, w.Holds P → Guards C P R (g w)) :
    Guards C P R (heap >>= g) :=
  fun s o hs ho => hg ⟨o, s⟩ ⟨ho, hs⟩ s o hs ho

theorem get_bind {g} (hg : ∀ o : Objects, o.Holds P → Guards C P R (g o)) :
    Guards C P R (get >>= g) :=
  fun s o hs ho => hg o ho s o hs ho

theorem ofExcept {e} (h : ∀ a, e = .ok a → Q P a) :
    Guards C P Q (Eval.ofExcept e : Operation α) := by
  cases e with
  | ok a => exact Guards.pure (h a rfl)
  | error f => exact Guards.fail f

theorem modifyGet {g} (hgrown : ∀ o, o.Grown (g o).2 ∧ (g o).2.lists = o.lists)
    (hg : ∀ o : Objects, o.Holds P → (g o).2.Holds P ∧ Q P (g o).1) :
    Guards C P Q (modifyGet g : Operation α) := by
  intro s o _ ho
  obtain ⟨ho', hQ⟩ := hg o ho
  exact ⟨P, .of_grown (hgrown o), ho', fun a ha => by cases ha; exact hQ⟩

theorem setDict (hC : ¬C) (r : Ref) (h : PairsWithin P d.entries) : Guards C P Lists.any
      (modify fun o => { o with dicts := o.dicts.set r d } : Operation PUnit) := by
  intro s o _ ho
  exact ⟨P, .of_lists_eq rfl (Nat.le_of_eq (o.dicts.size_set r d).symm) fun hc => (hC hc).elim,
    ho.setDict r h, fun _ _ => trivial⟩

theorem modify_bind {g : Objects → Objects} {f : PUnit → Operation β}
    (hgrown : ∀ o, o.Grown (g o) ∧ (g o).lists = o.lists)
    (hg : ∀ o : Objects, o.Holds P → (g o).Holds P)
    (hf : Guards C P R (f ⟨⟩)) :
    Guards C P R (MonadStateOf.modifyGet (fun o => (⟨⟩, g o)) >>= f) := by
  intro s o hs ho
  obtain ⟨P', hlater, ho', hR⟩ := hf s (g o) hs (hg o ho)
  exact ⟨P', Objects.Later.trans (.of_grown (hgrown o)) hlater, ho', hR⟩

theorem recover (accepts : Fault → Bool) {g} (hx : Guards C P Q x)
    (hg : ∀ e P', (∀ l, P l → P' l) → Guards C P' Q (g e)) :
    Guards C P Q (recover accepts x g) := by
  intro s o hs ho
  obtain ⟨P', hlater, ho', hQ⟩ := hx s o hs ho
  rcases hr : x.perform s o with ⟨e | a, o'⟩ <;> rw [hr] at hlater ho' hQ
  · rw [perform_recover_of_error accepts g hr]
    have hhandler : Guards C P' Q (if accepts e then g e else fail e : Operation α) :=
      Guards.ite (fun _ => hg e P' hlater.mono) fun _ => Guards.fail e
    obtain ⟨P'', hlater', ho'', hQ'⟩ := hhandler s o' (hs.mono hlater.mono) ho'
    exact ⟨P'', hlater.trans hlater', ho'', hQ'⟩
  · rw [perform_recover_of_ok accepts g hr]
    exact ⟨P', hlater, ho', hQ⟩

end Guards

end Rules

end Operation

/-! ## New objects -/

namespace Eval

open Operation

theorem looks_valueIn (c : Cell) : Looks (valueIn c) := by
  unfold valueIn
  split
  · exact .pure _
  · exact .fail _

theorem guards_valueIn {c} (hc : c.Within P) : Guards C P Value.Within (valueIn c) := by
  unfold valueIn
  split
  · exact Guards.pure hc
  · exact Guards.fail _

theorem guards_note (message : String) : Guards C P Lists.any (note message) :=
  .modifyGet (fun _ => ⟨.of_eq rfl rfl rfl, rfl⟩) fun _ ho =>
    ⟨ho.congr rfl rfl rfl rfl rfl, trivial⟩

theorem guards_newList {items} (h : ∀ v ∈ items, v.Within P) :
    Guards C P Value.Within (newList items) := by
  intro s o _ ho
  have hpush := (Extends.refl o.lists).push items.toArray
  have hmono (l : Ref) (hl : P l) : P l ∨ l = o.lists.size := .inl hl
  refine ⟨fun l => P l ∨ l = o.lists.size, ?_,
    (ho.mono hmono).pushHidden fun v hv => (h v hv).mono hmono, ?_⟩
  · exact
      { mono := hmono
        size := hpush.1
        hidden := fun l hlt hl => hl.resolve_right (Nat.ne_of_lt hlt)
        kept := fun l hlt _ => hpush.2 l hlt
        dicts := Nat.le_refl _
        exist := fun hP l hl => by
          show l < (o.lists.push items.toArray).size
          rw [size_push]
          rcases hl with hl | rfl
          · exact Nat.lt_succ_of_lt (hP l hl)
          · exact Nat.lt_succ_self _
        grown := fun _ => ⟨hpush, .refl _, rfl⟩ }
  · intro v hv
    cases hv
    exact .inr rfl

theorem guards_newDict (h : PairsWithin P d.entries) : Guards C P Value.Within (newDict d) :=
  .modifyGet (fun o => ⟨.pushDict o d, rfl⟩) fun _ ho => ⟨ho.pushDict h, trivial⟩

theorem guards_newOrigin : Guards C P Lists.any newOrigin :=
  .modifyGet (fun _ => ⟨.of_eq rfl rfl rfl, rfl⟩) fun _ ho =>
    ⟨ho.congr rfl rfl rfl rfl rfl, trivial⟩

variable {v a b : Value}

theorem guards_renew (hv : v.Within P) : Guards C P Value.Within (renew v) := by
  unfold renew
  split
  · exact Guards.pure (Value.within_withOrigin _ hv)
  · exact guards_newOrigin.bind fun P' origin h _ =>
      Guards.pure (Value.within_withOrigin _ (hv.mono h))

theorem guards_newFloat (x : Float) : Guards C P Value.Within (newFloat x) :=
  guards_newOrigin.bind fun _ _ _ _ => Guards.pure trivial

theorem guards_newInt (n : Int) : Guards C P Value.Within (newInt n) :=
  guards_renew trivial

theorem guards_newText (s : String) : Guards C P Value.Within (newText s) :=
  guards_renew trivial

theorem guards_newTuple {items} (h : ∀ v ∈ items, v.Within P) :
    Guards C P Value.Within (newTuple items) :=
  guards_renew (Value.withinAll_iff.2 h)

theorem guards_newGenerator (h : t.Within P) : Guards C P Value.Within (newGenerator t) := by
  have hpush : Guards C P Lists.any (modifyGet fun w : Objects =>
      (w.generators.size, { w with generators := w.generators.push t }) : Operation Ref) :=
    .modifyGet (fun _ => ⟨.of_eq rfl rfl rfl, rfl⟩) fun _ ho => ⟨ho.pushGenerator h, trivial⟩
  exact hpush.bind fun _ _ _ _ => guards_newOrigin.bind fun _ _ _ _ => Guards.pure trivial

/-! ## Texts -/

theorem looks_shownOf (v : Value) : Looks (shownOf v) :=
  .heap_bind fun _ => .ofExcept _

theorem looks_textOf (v : Value) : Looks (textOf v) :=
  .heap_bind fun _ => .ofExcept _

theorem looks_outputOf (v : Value) : Looks (outputOf v) :=
  .heap_bind fun _ => .ofExcept _

theorem guards_keptText (hv : v.Within P) (s : String) :
    Guards C P Value.Within (keptText v s) := by
  unfold keptText
  split
  · split
    · exact Guards.pure hv
    · exact guards_newText s
  · exact guards_newText s

theorem guards_toText (hv : v.Within P) : Guards C P Value.Within (toText v) :=
  (looks_outputOf v).guards_bind fun s => guards_keptText hv s

/-- Values made one after the other from the elements of a list. -/
theorem guards_mapM {f} {l : List α}
    (hf : ∀ a ∈ l, ∀ P', (∀ r, P r → P' r) → Guards C P' Value.Within (f a)) :
    Guards C P (fun P' vs => ∀ v ∈ vs, v.Within P') (l.mapM f) := by
  induction l generalizing P with
  | nil => exact Guards.pure (forall_mem_nil _)
  | cons a rest ih =>
    rw [mapM_cons]
    refine (hf a mem_cons_self P fun _ h => h).bind fun P₁ v h₁ hv => ?_
    refine (ih fun b hb P' h => hf b (mem_cons_of_mem _ hb) P' fun r hr => h r (h₁ r hr)).bind
      fun P₂ vs h₂ hvs => ?_
    exact Guards.pure (forall_mem_cons.2 ⟨hv.mono h₂, hvs⟩)

theorem guards_valuesIn {cells : List Cell} (h : ∀ c ∈ cells, c.Within P) :
    Guards C P (fun P' vs => ∀ v ∈ vs, v.Within P') (valuesIn cells) :=
  guards_mapM fun c hc _ hP => guards_valueIn ((h c hc).mono hP)

/-! ## Sequences -/

/-- An element with the rest behind it. -/
def NextWithin {ι : Type} (within : Lists → ι → Prop) (P : Lists) (r : Option (Value × ι)) : Prop :=
  ∀ v t, r = some (v, t) → v.Within P ∧ within P t

theorem nextWithin_none {ι : Type} {within : Lists → ι → Prop} : NextWithin within P none :=
  fun _ _ h => nomatch h

theorem nextWithin_some {ι : Type} {within} {t : ι} (hv : v.Within P) (ht : within P t) :
    NextWithin within P (some (v, t)) := by
  intro v' t' h
  cases h
  exact ⟨hv, ht⟩

theorem guards_next (ht : t.Within P) : Guards C P (NextWithin Traversal.Within) t.next := by
  cases t with
  | fixed rest =>
    cases rest with
    | nil => exact Guards.pure nextWithin_none
    | cons v rest =>
      rw [Traversal.Within, forall_mem_cons] at ht
      exact Guards.pure (nextWithin_some ht.1 ht.2)
  | listFrom r i =>
    refine Guards.get_bind fun o ho => ?_
    split
    next hv => exact Guards.pure (nextWithin_some (ho.listAt hv) ht)
    next => exact Guards.pure nextWithin_none
  | dictFrom kind r slot size left =>
    refine Guards.get_bind fun o ho => ?_
    refine Guards.ite (fun _ => Guards.fail_bind _ _) fun _ => ?_
    split
    · exact Guards.pure nextWithin_none
    · exact Guards.fail _
    next k v _ _ hentry =>
      have hpair := ho.dictEntries r _ (Dict.mem_entries_of_entryFrom? hentry)
      cases kind with
      | keys => exact Guards.pure (nextWithin_some hpair.1 trivial)
      | values => exact Guards.pure (nextWithin_some hpair.2 trivial)
      | items =>
        have hitems : ∀ x ∈ [k, v], x.Within P := by simpa using hpair
        exact (guards_newTuple hitems).bind fun _ _ _ hv =>
          Guards.pure (nextWithin_some hv trivial)
  | cursor r =>
    refine Guards.get_bind fun o ho => ?_
    split
    · exact Guards.pure nextWithin_none
    next v rest hrest =>
      have hall := ho.cursorRest r
      rw [hrest, forall_mem_cons] at hall
      exact Guards.modify_bind (fun _ => ⟨.of_eq rfl rfl rfl, rfl⟩)
        (fun _ ho => ho.setCursor r hall.2) (Guards.pure (nextWithin_some hall.1 trivial))

theorem guards_textsOf (hv : v.Within P) : Guards C P Value.Within (textsOf v) := by
  unfold textsOf
  split
  · exact guards_newOrigin.bind fun _ _ _ _ => Guards.pure trivial
  · refine Guards.heap_bind fun w hw => ?_
    split
    next ht => exact guards_newGenerator (hw.start? hv ht)
    next => exact Guards.fail _

theorem guards_nextText (r : Ref) : Guards C P MaybeWithin (nextText r) := by
  have htake : Guards C P Traversal.Within (modifyGet fun w : Objects =>
      (w.generatorAt r, { w with generators := w.generators.set r (.fixed []) })) :=
    .modifyGet (fun _ => ⟨.of_eq rfl rfl rfl, rfl⟩) fun _ ho =>
      ⟨ho.setGenerator r (forall_mem_nil _), ho.generatorAt r⟩
  refine htake.bind fun P₁ t _ ht => (guards_next ht).bind fun P₂ next? _ hnext => ?_
  split
  · exact Guards.pure maybeWithin_none
  next v t' =>
    obtain ⟨hv, ht'⟩ := hnext v t' rfl
    refine (guards_toText hv).bind fun P₃ text h₃ htext => ?_
    exact Guards.modify_bind (fun _ => ⟨.of_eq rfl rfl rfl, rfl⟩)
      (fun _ ho => ho.setGenerator r (ht'.mono h₃))
      (Guards.pure (maybeWithin_some htext))

theorem guards_restOfTexts (r : Ref) (n : Nat) : ∀ {P : Lists} {taken : List Value},
    (∀ v ∈ taken, v.Within P) →
    Guards C P (fun P' vs => ∀ v ∈ vs, v.Within P') (restOfTexts r n taken) := by
  induction n with
  | zero => exact fun h => Guards.pure (by simpa using h)
  | succ n ih =>
    intro P taken h
    refine (guards_nextText r).bind fun P₁ v? h₁ hv => ?_
    cases v? with
    | none => exact Guards.pure (by simpa using fun v hv => (h v hv).mono h₁)
    | some v =>
      exact ih (forall_mem_cons.2 ⟨hv v rfl, fun u hu => (h u hu).mono h₁⟩)

theorem guards_elements (hv : v.Within P) :
    Guards C P (fun P' vs => ∀ v ∈ vs, v.Within P') (elements v) := by
  fun_induction elements v with
  | case1 source ih =>
    refine (ih hv).bind fun P₁ items _ hitems => guards_mapM fun e he P₂ h₂ => ?_
    refine (guards_newInt _).bind fun P₃ i h₃ hi => guards_newTuple ?_
    have hmem : e.1 ∈ items := (mem_zipIdx' he).2 ▸ getElem_mem _
    have hx := ((hitems e.1 hmem).mono h₂).mono h₃
    simp [hi, hx]
  | case2 s => exact guards_mapM fun c _ _ _ => guards_newText _
  | case3 r =>
    refine Guards.heap_bind fun w hw => guards_mapM fun e he P₁ h₁ => guards_newTuple ?_
    have hpair := hw.objects.dictEntries r e he
    simp [hpair.1.mono h₁, hpair.2.mono h₁]
  | case4 r =>
    exact .modifyGet (fun _ => ⟨.of_eq rfl rfl rfl, rfl⟩) fun _ ho =>
      ⟨ho.setCursor r (forall_mem_nil _), ho.cursorRest r⟩
  | case5 => exact Guards.heap_bind fun w _ => guards_restOfTexts _ _ (forall_mem_nil _)
  | case6 v =>
    refine Guards.heap_bind fun w hw => ?_
    split
    next hitems => exact Guards.pure (hw.elements? hv hitems)
    next => exact Guards.fail _

theorem looks_length (v : Value) : Looks (length v) :=
  .heap_bind fun _ => .ofExcept _

theorem guards_taken (v : Value) {element} (h : element.Within P) :
    Guards C P Value.Within (taken v element) := by
  unfold taken
  split
  · exact guards_renew h
  · exact Guards.pure h

theorem guards_subscript {key} (hv : v.Within P) (hkey : key.Within P) :
    Guards C P Value.Within (subscript v key) := by
  refine Guards.heap_bind fun w hw => ?_
  refine (Guards.ofExcept fun x hx => hw.subscript hv hkey hx).bind
    fun P' x _ hx => guards_taken v hx

theorem looks_checkKey (key : Value) : Looks (checkKey key) := by
  unfold checkKey
  split
  · exact Looks.fail _
  · exact Looks.pure _

theorem guards_setEntry (hC : ¬C) (r : Ref) {key} (hkey : key.Within P) (hv : v.Within P) :
    Guards C P Lists.any (setEntry r key v) :=
  Guards.heap_bind fun w hw =>
    .setDict hC r ((hw.objects.dictEntries r).insertEntry w hkey hv)

theorem guards_withinTexts (x : Value) (r : Ref) (n : Nat) :
    ∀ {P : Lists}, Guards C P Lists.any (withinTexts x r n) := by
  induction n with
  | zero => exact Guards.pure trivial
  | succ n ih =>
    intro P
    refine (guards_nextText r).bind fun P₁ v? _ _ => ?_
    cases v? with
    | none => exact Guards.pure trivial
    | some v =>
      refine Guards.heap_bind fun w _ => ?_
      split
      · exact Guards.pure trivial
      · exact ih

theorem guards_within (x container : Value) : Guards C P Lists.any (within x container) := by
  refine Guards.heap_bind fun w hw => ?_
  have hcursor (r : Ref) : Guards C P Lists.any (do
      let found := (w.cursorRest r).dropWhile fun y => !w.same y x
      modify fun w => { w with cursors := w.cursors.set r (found.drop 1) }
      return !found.isEmpty : Operation Bool) := by
    refine Guards.modify_bind (fun _ => ⟨.of_eq rfl rfl rfl, rfl⟩)
      (fun _ ho => ho.setCursor r fun v hv => ?_) (Guards.pure trivial)
    exact hw.objects.cursorRest r v ((dropWhile_sublist _).subset (mem_of_mem_drop hv))
  split
  · split
    · exact Guards.pure trivial
    · exact Guards.fail _
  all_goals first
    | exact hcursor _
    | exact guards_withinTexts x _ _
    | (split
       · first | exact Guards.fail _ | exact Guards.pure trivial
       · first | exact Guards.fail _ | exact Guards.pure trivial)

theorem guards_iteration_next : ∀ {it : Iteration} {P : Lists}, it.Within P →
    Guards C P (NextWithin Iteration.Within) it.next := by
  intro it
  induction it with
  | «over» t =>
    intro P ht
    refine (guards_next ht).bind fun P₁ r _ hr => ?_
    split
    · exact Guards.pure (nextWithin_some (hr _ _ rfl).1 (hr _ _ rfl).2)
    · exact Guards.pure nextWithin_none
  | texts r =>
    intro P _
    refine (guards_nextText r).bind fun P₁ v? _ hv => ?_
    split
    · exact Guards.pure (nextWithin_some (hv _ rfl) trivial)
    · exact Guards.pure nextWithin_none
  | numbered i source ih =>
    intro P hsource
    refine (ih hsource).bind fun P₁ r _ hr => ?_
    split
    next v source' =>
      obtain ⟨hv, hs⟩ := hr v source' rfl
      refine (guards_newInt i).bind fun P₂ n h₂ hn => ?_
      refine (guards_newTuple (by simp [hn, hv.mono h₂])).bind fun P₃ t h₃ ht => ?_
      exact Guards.pure (nextWithin_some ht ((hs.mono h₂).mono h₃))
    next => exact Guards.pure nextWithin_none

/-! ## Operators -/

theorem guards_ofNumber (n : Number) : Guards C P Value.Within (ofNumber n) := by
  cases n with
  | int n => exact guards_newInt n
  | float x => exact guards_newFloat x
  | complex z => exact guards_newOrigin.bind fun _ _ _ _ => Guards.pure trivial

theorem guards_arithmetic (sign : String) (f : Number → Number → Except Fault Number)
    (a b : Value) : Guards C P Value.Within (arithmetic sign f a b) := by
  unfold arithmetic
  split
  · exact (Looks.ofExcept _).guards_bind guards_ofNumber
  · exact Guards.fail _

theorem guards_add (ha : a.Within P) (hb : b.Within P) : Guards C P Value.Within (add a b) := by
  refine Guards.heap_bind fun w hw => ?_
  split
  · exact Guards.pure hb
  · exact Guards.pure hb
  · exact Guards.pure ha
  · exact Guards.pure ha
  · exact guards_newText _
  · exact guards_newList fun v hv => (mem_append.1 hv).elim
      (hw.objects.listItems _ v) (hw.objects.listItems _ v)
  · exact guards_newTuple fun v hv => (mem_append.1 hv).elim
      (Value.withinAll_iff.1 ha v) (Value.withinAll_iff.1 hb v)
  · exact Guards.fail _
  · exact Guards.fail _
  · exact Guards.fail _
  · exact guards_arithmetic _ _ _ _

theorem mem_of_mem_repeated {items count} {a : α} (h : a ∈ repeated items count) : a ∈ items := by
  unfold repeated at h
  split at h
  · cases h
  · obtain ⟨l, hl, ha⟩ := mem_flatten.1 h
    exact eq_of_mem_replicate hl ▸ ha

theorem guards_repeatSequence (hv : v.Within P) (count : Value) :
    Guards C P Value.Within (repeatSequence v count) := by
  unfold repeatSequence
  split
  · exact Guards.fail _
  · refine Guards.ite (fun _ => Guards.fail_bind _ _) fun _ => ?_
    split
    · exact Guards.ite (fun _ => Guards.pure hv) fun _ => guards_newText _
    · exact Guards.ite (fun _ => Guards.pure hv) fun _ => guards_newTuple fun u hu =>
        Value.withinAll_iff.1 hv u (mem_of_mem_repeated hu)
    · exact Guards.heap_bind fun w hw => guards_newList fun u hu =>
        hw.objects.listItems _ u (mem_of_mem_repeated hu)
    · exact Guards.fail _

theorem guards_mul (ha : a.Within P) (hb : b.Within P) : Guards C P Value.Within (mul a b) := by
  unfold mul
  split
  · exact guards_repeatSequence ha b
  · split
    · exact guards_repeatSequence hb a
    · exact guards_arithmetic _ _ _ _

theorem guards_mod (a b : Value) : Guards C P Value.Within (mod a b) := by
  unfold mod
  split
  · exact Guards.heap_bind fun w _ => (Looks.ofExcept _).guards_bind guards_newText
  · split
    · exact Guards.fail _
    · exact Guards.fail _
    · exact guards_arithmetic _ _ _ _

theorem guards_binary (op : Script.BinOp) (ha : a.Within P) (hb : b.Within P) :
    Guards C P Value.Within (binary op a b) := by
  cases op with
  | add => exact guards_add ha hb
  | sub => exact guards_arithmetic _ _ _ _
  | mult => exact guards_mul ha hb
  | div => exact guards_arithmetic _ _ _ _
  | mod => exact guards_mod a b

theorem guards_floor (v : Value) : Guards C P Value.Within (floor v) := by
  unfold floor
  split
  · exact (Looks.ofExcept _).guards_bind guards_newInt
  · exact Guards.fail _

theorem guards_unary (op : Script.UnaryOp) (hv : v.Within P) :
    Guards C P Value.Within (unary op v) := by
  unfold unary
  split
  · exact Guards.heap_bind fun _ _ => Guards.pure trivial
  · split
    · exact guards_ofNumber _
    · exact Guards.fail _
  · split
    · exact Guards.pure hv
    · exact Guards.pure hv
    · exact Guards.pure hv
    · split
      · exact guards_ofNumber _
      · exact Guards.fail _

theorem guards_compareBy (op : Script.CompareOp) (a b : Value) :
    Guards C P Lists.any (compareBy op a b) := by
  refine Guards.heap_bind fun w _ => ?_
  cases op with
  | within => exact guards_within a b
  | eq | ne | is | isNot => exact Guards.pure trivial
  | lt | gt | le | ge => exact (Looks.ofExcept _).guards

end Eval

/-! ## All lists -/

/-- Every list is public. -/
def Lists.all : Lists :=
  fun _ => True

protected theorem Value.Within.all (v : Value) : v.Within Lists.all :=
  within_of_forall (fun _ => trivial) v

protected theorem PairsWithin.all (entries : List (Value × Value)) :
    PairsWithin Lists.all entries :=
  fun e _ => ⟨.all e.1, .all e.2⟩

protected theorem Traversal.Within.all (t : Traversal) : t.Within Lists.all := by
  cases t <;> first | trivial | exact fun _ _ => .all _

protected theorem Iteration.Within.all : ∀ it : Iteration, it.Within Lists.all
  | .over t => Traversal.Within.all t
  | .texts _ => trivial
  | .numbered _ source => Iteration.Within.all source

/-- An operation on any values that changes no list and no dictionary, and what it gives. -/
theorem Operation.Guards.grown {Q} {x : Operation α} (hx : Guards True Lists.all Q x)
    (s : Surroundings) (o : Objects) :
    o.Grown (x.perform s o).2 ∧ ∀ a, (x.perform s o).1 = .ok a → ∃ P, Q P a := by
  have hs : s.Within Lists.all := by
    refine ⟨fun _ _ _ => ⟨fun _ _ => .all _, fun _ _ _ _ => .all _⟩, fun _ _ _ => ?_,
      fun _ _ _ _ _ => .all _, fun _ _ => .all _, fun _ _ => .all _⟩
    exact ⟨.all _, fun _ _ => .all _, .all _, .all _, .all _⟩
  have ho : o.Holds Lists.all := by
    exact ⟨fun _ _ _ _ _ => .all _, fun _ _ _ => .all _, fun _ _ _ _ _ => .all _,
      fun _ _ _ => .all _, fun _ _ _ _ _ => .all _⟩
  obtain ⟨P, hlater, -, hQ⟩ := hx s o hs ho
  exact ⟨hlater.grown trivial, fun a ha => ⟨P, hQ a ha⟩⟩

end Stencil
