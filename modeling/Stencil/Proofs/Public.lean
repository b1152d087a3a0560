import Stencil.Engine.Call
import Stencil.Proofs.Coupling

/-!
# Public lists

The lists that functions collect their output in live in the same store as the lists of templates,
but no value of a template refers to them. `Value.Within P` says that a value refers to public lists
only, which are those in `P`. Whatever is found in a heap whose values are of this kind is of this
kind as well.
-/

namespace Stencil

open Heap List Table

variable {κ : Type} {v : Value}

variable {α β : Type}

/-- A set of list objects. -/
abbrev Lists := Ref → Prop

/-! ## Values that refer to public lists only -/

mutual

/-- A value refers to no lists but those in a set, directly or as a part of it. -/
def Value.Within (P : Lists) : Value → Prop
  | .list r => P r
  | .tuple items => Value.WithinAll P items
  | .numbered v | .method _ v _ | .bound v _ | .typeAlias _ v => v.Within P
  | _ => True

def Value.WithinAll (P : Lists) : List Value → Prop
  | [] => True
  | v :: rest => v.Within P ∧ Value.WithinAll P rest

end

variable {P P' : Lists}

namespace Value

@[simp]
theorem withinAll_iff {vs} : WithinAll P vs ↔ ∀ v ∈ vs, v.Within P := by
  induction vs with
  | nil => simp [WithinAll]
  | cons v rest ih => simp [WithinAll, ih]

mutual

theorem Within.mono (h : ∀ r, P r → P' r) : ∀ {v : Value}, v.Within P → v.Within P'
  | .list _, hv => h _ hv
  | .tuple _, hv => WithinAll.mono h hv
  | .numbered v, hv | .method _ v _, hv | .bound v _, hv | .typeAlias _ v, hv =>
    Within.mono (v := v) h hv
  | .none, _ | .bool _, _ | .int _, _ | .float _, _ | .complex _, _ | .str _, _ | .dict _, _
  | .cursor _, _ | .generator _, _ | .view _ _, _ | .range _, _ | .record _, _ | .host _, _
  | .filter _, _ | .function _, _ | .macroObject _, _ | .typeObject _, _ | .environment, _
  | .template _, _ | .unit _, _ | .blockMap _, _ => trivial

theorem WithinAll.mono (h : ∀ r, P r → P' r) : ∀ {vs : List Value}, WithinAll P vs → WithinAll P' vs
  | [], _ => trivial
  | _ :: _, hv => ⟨Within.mono h hv.1, WithinAll.mono h hv.2⟩

end

mutual

/-- Where every list is public there is nothing to say of a value. -/
theorem within_of_forall (h : ∀ r, P r) : ∀ v : Value, v.Within P
  | .list r => h r
  | .tuple items => withinAll_of_forall h items
  | .numbered v | .method _ v _ | .bound v _ | .typeAlias _ v => within_of_forall h v
  | .none | .bool _ | .int _ | .float _ | .complex _ | .str _ | .dict _ | .cursor _ | .generator _
  | .view _ _ | .range _ | .record _ | .host _ | .filter _ | .function _ | .macroObject _
  | .typeObject _ | .environment | .template _ | .unit _ | .blockMap _ => trivial

theorem withinAll_of_forall (h : ∀ r, P r) : ∀ vs : List Value, WithinAll P vs
  | [] => trivial
  | v :: rest => ⟨within_of_forall h v, withinAll_of_forall h rest⟩

end

theorem within_ofConstant (c : Constant) : (ofConstant c).Within P := by
  cases c <;> trivial

theorem within_ofText? (s? : Option String) : (ofText? s?).Within P := by
  cases s? <;> trivial

theorem within_withOrigin (origin : Origin) (h : v.Within P) : (v.withOrigin origin).Within P := by
  cases v <;> exact h

theorem within_constantResult (a b : Value) (h : v.Within P) : (constantResult a b v).Within P := by
  unfold constantResult
  split
  · trivial
  · exact within_withOrigin _ h

end Value

/-- The content of a variable refers to public lists only. -/
def Cell.Within (P : Lists) : Cell → Prop
  | .value v => v.Within P
  | .method self _ => self.Within P
  | _ => True

/-- Pairs of values that refer to public lists only. -/
def PairsWithin (P : Lists) (entries : List (Value × Value)) : Prop :=
  ∀ e ∈ entries, e.1.Within P ∧ e.2.Within P

/-- A value that may be missing refers to public lists only. -/
def MaybeWithin (P : Lists) (v? : Option Value) : Prop :=
  ∀ v, v? = some v → v.Within P

/-- Bindings of values that refer to public lists only. -/
def Table.Within {κ : Type} (P : Lists) (t : Table κ Value) : Prop :=
  ∀ e ∈ t.entries, e.2.Within P

/-- What is gone through refers to public lists only. -/
def Traversal.Within (P : Lists) : Traversal → Prop
  | .fixed rest => ∀ v ∈ rest, v.Within P
  | .listFrom r _ => P r
  | _ => True

/-- What a loop goes through refers to public lists only. -/
def Iteration.Within (P : Lists) : Iteration → Prop
  | .over t => t.Within P
  | .texts _ => True
  | .numbered _ source => source.Within P

theorem maybeWithin_some (hv : v.Within P) : MaybeWithin P (some v) := by
  intro u hu
  cases hu
  exact hv

theorem maybeWithin_none : MaybeWithin P none :=
  fun _ h => nomatch h

theorem MaybeWithin.getD {v?} (h : MaybeWithin P v?) {other} (hother : other.Within P) :
    (v?.getD other).Within P := by
  cases v? with
  | none => exact hother
  | some v => exact h v rfl

/-- Objects that refer to public lists only; public lists exist. -/
structure Objects.Within (P : Lists) (o : Objects) : Prop where
  exist : ∀ r, P r → r < o.lists.size
  lists : ∀ r items, o.lists.get? r = some items → ∀ v ∈ items.toList, v.Within P
  dicts : ∀ r d, o.dicts.get? r = some d → PairsWithin P d.entries
  cursors : ∀ r rest, o.cursors.get? r = some rest → ∀ v ∈ rest, v.Within P
  generators : ∀ r t, o.generators.get? r = some t → t.Within P
  records : ∀ r t, o.records.get? r = some t → Table.Within P t

/-- Objects that refer to public lists only, whether these exist or not. -/
structure Objects.Holds (P : Lists) (o : Objects) : Prop where
  lists : ∀ r items, o.lists.get? r = some items → ∀ v ∈ items.toList, v.Within P
  dicts : ∀ r d, o.dicts.get? r = some d → PairsWithin P d.entries
  cursors : ∀ r rest, o.cursors.get? r = some rest → ∀ v ∈ rest, v.Within P
  generators : ∀ r t, o.generators.get? r = some t → t.Within P
  records : ∀ r t, o.records.get? r = some t → Table.Within P t

theorem Objects.Within.holds {o : Objects} (h : o.Within P) : o.Holds P :=
  ⟨h.lists, h.dicts, h.cursors, h.generators, h.records⟩

theorem Objects.Holds.within {o : Objects} (h : o.Holds P) (hexist : ∀ r, P r → r < o.lists.size) :
    o.Within P :=
  ⟨hexist, h.lists, h.dicts, h.cursors, h.generators, h.records⟩

/-- The values of a context refer to public lists only. -/
structure Context.Within (P : Lists) (c : Context) : Prop where
  vars : c.vars.Within P
  blocks : ∀ e ∈ c.blocks.entries, ∀ v ∈ e.2, v.Within P

/-- The values of a macro refer to public lists only. -/
structure Macro.Within (P : Lists) (m : Macro) : Prop where
  function : m.function.Within P
  params : ∀ p ∈ m.params, p.2.Within P
  catchKwargs : m.catchKwargs.Within P
  catchVarargs : m.catchVarargs.Within P
  caller : m.caller.Within P

/-- What operations look at refers to public lists only. -/
structure Surroundings.Within (P : Lists) (s : Surroundings) : Prop where
  contexts : ∀ r c, s.contexts.get? r = some c → c.Within P
  macros : ∀ r m, s.macros.get? r = some m → m.Within P
  templates : ∀ r (t : Template), s.templates.get? r = some t → t.unit.entries.Within P
  filters : s.env.filters.Within P
  globals : s.env.globals.Within P

/-- All that operations can see refers to public lists only. -/
structure Heap.Within (P : Lists) (w : Heap) : Prop where
  objects : w.toObjects.Within P
  surroundings : w.toSurroundings.Within P

/-- The same, whether the public lists exist or not. -/
structure Heap.Holds (P : Lists) (w : Heap) : Prop where
  objects : w.toObjects.Holds P
  surroundings : w.toSurroundings.Within P

theorem Heap.Within.holds {w : Heap} (h : w.Within P) : w.Holds P :=
  ⟨h.objects.holds, h.surroundings⟩

section Mono

variable (h : ∀ r, P r → P' r)

include h

theorem Cell.Within.mono : ∀ {c : Cell}, c.Within P → c.Within P'
  | .value _, hc => Value.Within.mono h hc
  | .method self _, hc => Cell.Within.mono (c := self) hc
  | .context _, _ | .frame _, _ | .runtime, _ | .core _, _ => trivial

theorem PairsWithin.mono {entries} (he : PairsWithin P entries) : PairsWithin P' entries :=
  fun e hmem => ⟨(he e hmem).1.mono h, (he e hmem).2.mono h⟩

theorem MaybeWithin.mono {v?} (hv : MaybeWithin P v?) : MaybeWithin P' v? :=
  fun v hmem => (hv v hmem).mono h

theorem Table.Within.mono {t : Table κ Value} (ht : t.Within P) : t.Within P' :=
  fun e hmem => (ht e hmem).mono h

theorem Traversal.Within.mono {t : Traversal} (ht : t.Within P) : t.Within P' := by
  cases t with
  | fixed rest => exact fun v hv => (ht v hv).mono h
  | listFrom r i => exact h r ht
  | _ => trivial

theorem Iteration.Within.mono : ∀ {t : Iteration}, t.Within P → t.Within P'
  | .over _, ht => Traversal.Within.mono h ht
  | .texts _, _ => trivial
  | .numbered _ source, ht => Iteration.Within.mono (t := source) ht

theorem Context.Within.mono {c : Context} (hc : c.Within P) : c.Within P' where
  vars := hc.vars.mono h
  blocks e he v hv := (hc.blocks e he v hv).mono h

theorem Macro.Within.mono {m : Macro} (hm : m.Within P) : m.Within P' where
  function := hm.function.mono h
  params p hp := (hm.params p hp).mono h
  catchKwargs := hm.catchKwargs.mono h
  catchVarargs := hm.catchVarargs.mono h
  caller := hm.caller.mono h

theorem Surroundings.Within.mono {s : Surroundings} (hs : s.Within P) : s.Within P' where
  contexts r c hc := (hs.contexts r c hc).mono h
  macros r m hm := (hs.macros r m hm).mono h
  templates r t ht := (hs.templates r t ht).mono h
  filters := hs.filters.mono h
  globals := hs.globals.mono h

end Mono

/-! ## Looking at what is there -/

theorem Store.get?_set_eq_some {s : Store α} {r q a b} (h : (s.set r a).get? q = some b) :
    s.get? q = some b ∨ b = a := by
  by_cases hr : r = q
  · subst hr
    have hlt : r < s.size := by simpa using get?_eq_some_lt h
    rw [s.get?_set_self a hlt, Option.some.injEq] at h
    exact .inr h.symm
  · exact .inl (s.get?_set_of_ne a hr ▸ h)

theorem Table.findIn_mem {γ : Type} [DecidableEq κ] {key b} {l : List (κ × γ)}
    (h : findIn key l = some b) : (key, b) ∈ l := by
  induction l with
  | nil => cases h
  | cons e rest ih =>
    obtain ⟨k, c⟩ := e
    by_cases hk : k = key
    · simp only [findIn, hk, if_true, Option.some.injEq] at h
      simp [hk, h]
    · simp only [findIn, hk, if_false] at h
      exact mem_cons_of_mem _ (ih h)

theorem Table.mem_of_mem_insertIn {γ : Type} [DecidableEq κ] {key b l} {e : κ × γ}
    (h : e ∈ insertIn key b l) : e.2 = b ∨ e ∈ l := by
  induction l with
  | nil =>
    rw [insertIn, mem_singleton] at h
    exact .inl (congrArg Prod.snd h)
  | cons c rest ih =>
    obtain ⟨k, d⟩ := c
    by_cases hk : k = key
    · simp only [insertIn, hk, if_true, mem_cons] at h
      rcases h with rfl | h
      · exact .inl rfl
      · exact .inr (mem_cons_of_mem _ h)
    · simp only [insertIn, hk, if_false, mem_cons] at h
      rcases h with rfl | h
      · exact .inr mem_cons_self
      · exact (ih h).imp id (mem_cons_of_mem _)

/-- The entries of a dictionary are found in its slots. -/
theorem Dict.mem_entries_of_entryFrom? {d : Dict} {slot n e} (h : d.entryFrom? slot = some (e, n)) :
    e ∈ d.entries := by
  have hsearch : ∀ (l : List (Option (Value × Value))) (i : Nat),
      Dict.entryFrom?.search l i = some (e, n) → some e ∈ l := by
    intro l
    induction l with
    | nil => intro i hi; cases hi
    | cons s rest ih =>
      intro i hi
      cases s with
      | none => exact mem_cons_of_mem _ (ih _ hi)
      | some e' =>
        simp only [Dict.entryFrom?.search, Option.some.injEq, Prod.mk.injEq] at hi
        rw [hi.1]
        exact mem_cons_self
  exact mem_filterMap.2 ⟨some e, mem_of_mem_drop (hsearch _ _ h), rfl⟩

namespace PairsWithin

variable {d : Dict}

variable {v : Value}

theorem add (h : PairsWithin P d.entries) {key} (hkey : key.Within P) (hv : v.Within P) :
    PairsWithin P (d.add key v).entries := by
  intro e he
  rw [Dict.entries_add, mem_append, mem_singleton] at he
  rcases he with he | rfl
  · exact h e he
  · exact ⟨hkey, hv⟩

theorem update (h : PairsWithin P d.entries) (test : Value → Bool) (hv : v.Within P) :
    PairsWithin P (d.update test v).entries := by
  intro e he
  simp only [Dict.entries, Dict.update, filterMap_map, mem_filterMap] at he
  obtain ⟨slot, hslot, hsome⟩ := he
  cases slot with
  | none => cases hsome
  | some entry =>
    have hentry := h entry (mem_filterMap.2 ⟨some entry, hslot, rfl⟩)
    simp only [Function.comp, id, Option.some.injEq] at hsome
    subst hsome
    split
    · exact ⟨hentry.1, hv⟩
    · exact hentry

theorem remove (h : PairsWithin P d.entries) (test : Value → Bool) :
    PairsWithin P (d.remove test).entries := by
  intro e he
  simp only [Dict.entries, Dict.remove, filterMap_map, mem_filterMap] at he
  obtain ⟨slot, hslot, hsome⟩ := he
  cases slot with
  | none => cases hsome
  | some entry =>
    have hentry := h entry (mem_filterMap.2 ⟨some entry, hslot, rfl⟩)
    simp only [Function.comp, id] at hsome
    split at hsome
    · cases hsome
    · cases hsome
      exact hentry

theorem insertEntry (h : PairsWithin P d.entries) (w : Heap) {key} (hkey : key.Within P)
    (hv : v.Within P) : PairsWithin P (w.insertEntry key v d).entries := by
  unfold Heap.insertEntry
  split
  · exact h.update _ hv
  · exact h.add hkey hv

end PairsWithin

namespace Table.Within

variable {κ : Type} [DecidableEq κ] {t : Table κ Value}

theorem find? (ht : t.Within P) {key : κ} (h : t.find? key = some v) : v.Within P :=
  ht _ (findIn_mem h)

theorem insert (ht : t.Within P) (key : κ) (hv : v.Within P) : (t.insert key v).Within P := by
  intro e he
  rcases mem_of_mem_insertIn he with h | h
  · rw [h]
    exact hv
  · exact ht e h

theorem insertAll (ht : t.Within P) {pairs} (h : ∀ e ∈ pairs, e.2.Within P) :
    (t.insertAll pairs).Within P := by
  induction pairs generalizing t with
  | nil => exact ht
  | cons e rest ih =>
    rw [forall_mem_cons] at h
    exact ih (ht.insert e.1 h.1) h.2

theorem ofList {pairs : List (κ × Value)} (h : ∀ e ∈ pairs, e.2.Within P) :
    (ofList pairs).Within P :=
  insertAll (forall_mem_nil _) h

end Table.Within

namespace Objects.Holds

variable {o : Objects} (h : o.Holds P)

include h

theorem listItems (r : Ref) : ∀ v ∈ o.listItems r, v.Within P := by
  unfold Objects.listItems Objects.listAt
  cases hr : o.lists.get? r with
  | none => exact forall_mem_nil _
  | some items => exact h.lists r items hr

theorem listAt {r} {i : Nat} (hv : (o.listAt r)[i]? = some v) : v.Within P := by
  refine h.listItems r v ?_
  rw [Objects.listItems, Array.mem_toList_iff]
  exact Array.mem_of_getElem? hv

theorem dictEntries (r : Ref) : PairsWithin P (o.dictEntries r) := by
  unfold Objects.dictEntries Objects.dictAt
  cases hr : o.dicts.get? r with
  | none => exact forall_mem_nil _
  | some d => exact h.dicts r d hr

theorem cursorRest (r : Ref) : ∀ v ∈ o.cursorRest r, v.Within P := by
  unfold Objects.cursorRest
  cases hr : o.cursors.get? r with
  | none => exact forall_mem_nil _
  | some rest => exact h.cursors r rest hr

theorem generatorAt (r : Ref) : (o.generatorAt r).Within P := by
  unfold Objects.generatorAt
  cases hr : o.generators.get? r with
  | none => exact forall_mem_nil _
  | some t => exact h.generators r t hr

theorem record (r : Ref) : ((o.records.get? r).getD {}).Within P := by
  cases hr : o.records.get? r with
  | none => exact forall_mem_nil _
  | some t => exact h.records r t hr

end Objects.Holds

namespace Context.Within

variable {c : Context} (h : c.Within P)

include h

theorem chainOf (name : Constant) : ∀ v ∈ c.chainOf name, v.Within P := by
  unfold Context.chainOf Context.chain
  split
  · rename_i key
    cases hfind : c.blocks.find? key with
    | none => exact forall_mem_nil _
    | some chain => exact h.blocks _ (findIn_mem hfind)
  · exact forall_mem_nil _

theorem lookup (name : String) : (c.lookup name).Within P := by
  unfold Context.lookup
  cases hfind : c.vars.find? name with
  | none => trivial
  | some v => exact h.vars.find? hfind

theorem addExport (name : String) : (c.addExport name).Within P := by
  unfold Context.addExport
  split
  · exact h
  · exact ⟨h.vars, h.blocks⟩

theorem addBlock (name : String) {block : Value} (hb : block.Within P) :
    (c.addBlock name block).Within P where
  vars := h.vars
  blocks e he := by
    rcases mem_of_mem_insertIn he with hchain | he
    · rw [hchain]
      exact forall_mem_append.2 ⟨h.chainOf (.str name), forall_mem_singleton.2 hb⟩
    · exact h.blocks e he

omit h in
theorem ofBlocks {vars blocks} (hvars : vars.Within P) (hblocks : ∀ b ∈ blocks, b.2.Within P) :
    (Context.ofBlocks vars blocks).Within P := by
  have hfold (blocks : List (String × Value)) : ∀ c : Context, c.Within P →
      (∀ b ∈ blocks, b.2.Within P) →
      (blocks.foldl (fun c b => c.addBlock b.1 b.2) c).Within P := by
    induction blocks with
    | nil => exact fun _ hc _ => hc
    | cons b rest ih =>
      intro c hc hblocks
      rw [forall_mem_cons] at hblocks
      exact ih _ (hc.addBlock b.1 hblocks.1) hblocks.2
  exact hfold blocks { vars } ⟨hvars, forall_mem_nil _⟩ hblocks

end Context.Within

namespace Heap.Holds

variable {w : Heap} (h : w.Holds P)

include h

theorem unit (r : Ref) : (w.template r).unit.entries.Within P := by
  unfold template
  cases hr : w.templates.get? r with
  | none => exact forall_mem_nil _
  | some t => exact h.surroundings.templates r t hr

theorem blocks (r : Ref) : (w.template r).blocks.Within P := by
  refine Within.ofList fun e he => ?_
  obtain ⟨entry, hmem, hb⟩ := mem_filterMap.1 he
  obtain ⟨name, -, rfl⟩ := Option.map_eq_some_iff.1 hb
  exact h.unit r entry hmem

theorem root (r : Ref) : (w.template r).root.Within P := by
  unfold Template.root
  cases hr : (w.template r).unit.entries.find? "root" with
  | none => trivial
  | some v => exact (h.unit r).find? hr

theorem macroAt (r : Ref) : (w.macroAt r).Within P := by
  unfold Heap.macroAt
  cases hr : w.macros.get? r with
  | none => exact ⟨trivial, forall_mem_nil _, trivial, trivial, trivial⟩
  | some m => exact h.surroundings.macros r m hr

theorem context (r : Ref) : (w.context r).Within P := by
  unfold Heap.context
  cases hr : w.contexts.get? r with
  | none => exact ⟨forall_mem_nil _, forall_mem_nil _⟩
  | some c => exact h.surroundings.contexts r c hr

theorem unitEntries (r : Ref) : PairsWithin P (w.template r).unitEntries := by
  intro e he
  obtain ⟨e', he', rfl⟩ := mem_map.1 he
  exact ⟨trivial, h.unit r e' he'⟩

theorem blockEntries (r : Ref) : PairsWithin P (w.template r).blockEntries := by
  intro e he
  obtain ⟨e', he', rfl⟩ := mem_map.1 he
  exact ⟨trivial, h.blocks r e' he'⟩

variable {v key x : Value} {entries : List (Value × Value)}

theorem mapping? (hv : w.mapping? v = some entries) : PairsWithin P entries := by
  unfold Heap.mapping? at hv
  split at hv <;> cases hv
  · exact h.objects.dictEntries _
  · exact h.unitEntries _
  · exact h.blockEntries _

omit h in
theorem findEntry? (he : PairsWithin P entries) (hv : w.findEntry? entries key = some v) :
    v.Within P := by
  obtain ⟨e, hfind, rfl⟩ := Option.map_eq_some_iff.1 hv
  exact (he e (mem_of_find?_eq_some hfind)).2

theorem elements? (hv : v.Within P) {items} (hitems : w.elements? v = some items) :
    ∀ x ∈ items, x.Within P := by
  have htexts (keys : List String) : ∀ x ∈ keys.map Value.ofText, x.Within P := by
    intro x hx
    obtain ⟨k, -, rfl⟩ := mem_map.1 hx
    trivial
  unfold Heap.elements? at hitems
  split at hitems <;> cases hitems
  · intro x hx
    obtain ⟨c, -, rfl⟩ := mem_map.1 hx
    trivial
  · exact Value.withinAll_iff.1 hv
  · exact h.objects.listItems _
  · intro x hx
    obtain ⟨e, he, rfl⟩ := mem_map.1 hx
    exact (h.objects.dictEntries _ e he).1
  · intro x hx
    obtain ⟨e, he, rfl⟩ := mem_map.1 hx
    exact (h.objects.dictEntries _ e he).1
  · intro x hx
    obtain ⟨e, he, rfl⟩ := mem_map.1 hx
    exact (h.objects.dictEntries _ e he).2
  · intro x hx
    obtain ⟨e, he, rfl⟩ := mem_map.1 hx
    have hpair := h.objects.dictEntries _ e he
    exact ⟨hpair.1, hpair.2, trivial⟩
  · intro x hx
    obtain ⟨i, -, rfl⟩ := mem_map.1 hx
    trivial
  · exact htexts _
  · exact htexts _
  · exact h.objects.cursorRest _

omit h in
theorem sequenceItem {sequence size element?} (helement : ∀ p v, element? p = some v → v.Within P)
    (hv : sequenceItem sequence size element? key = .ok v) : v.Within P := by
  unfold Heap.sequenceItem at hv
  split at hv
  · cases hv
  · split at hv
    next hx =>
      cases hv
      obtain ⟨p, -, hp⟩ := Option.bind_eq_some_iff.1 hx
      exact helement p _ hp
    next => cases hv

omit h in
theorem mappingItem (he : PairsWithin P entries) (hv : w.mappingItem entries key = .ok v) :
    v.Within P := by
  unfold Heap.mappingItem at hv
  split at hv
  · cases hv
  · split at hv
    next hx =>
      cases hv
      exact findEntry? he hx
    next => cases hv

/-- What stands in a container under a key. -/
theorem subscript (hv : v.Within P) (hkey : key.Within P) (hx : w.subscript v key = .ok x) :
    x.Within P := by
  unfold Heap.subscript at hx
  split at hx
  · split at hx <;> cases hx
    exact hkey
  · exact sequenceItem (fun p y hy => h.objects.listAt hy) hx
  · refine sequenceItem (fun p y hy => ?_) hx
    exact Value.withinAll_iff.1 hv y (mem_of_getElem? hy)
  · split at hx
    · cases hx
    · split at hx <;> cases hx
      trivial
  · exact sequenceItem (fun p y hy => by cases hy; trivial) hx
  · split at hx
    next entries hentries => exact mappingItem (h.mapping? hentries) hx
    next => cases hx

theorem start? (hv : v.Within P) {t} (ht : Traversal.start? w v = some t) : t.Within P := by
  unfold Traversal.start? at ht
  split at ht
  · cases ht
    exact hv
  · cases ht
    trivial
  · cases ht
    trivial
  · cases ht
    trivial
  · obtain ⟨items, hitems, rfl⟩ := Option.map_eq_some_iff.1 ht
    exact h.elements? hv hitems

theorem iteration? : ∀ {v : Value}, v.Within P → ∀ {it : Iteration},
    Iteration.start? w v = some it → it.Within P := by
  intro v hv it hit
  fun_induction Iteration.start? w v generalizing it with
  | case1 => cases hit; trivial
  | case2 source ih =>
    obtain ⟨it', hit', rfl⟩ := Option.map_eq_some_iff.1 hit
    exact @ih hv it' hit'
  | case3 v _ _ =>
    obtain ⟨t, ht, rfl⟩ := Option.map_eq_some_iff.1 hit
    exact h.start? hv ht

/-! ## Attributes -/

omit h in
theorem orElse {a b} (ha : ∀ v, a = some v → v.Within P) (hb : ∀ v, b = some v → v.Within P)
    (hv : (a <|> b) = some v) : v.Within P := by
  cases a with
  | none => exact hb v hv
  | some u => exact ha v hv

omit h in
theorem members_find? (m : Members) {self} (hself : self.Within P) (name : String)
    (hv : m.find? self name = some v) : v.Within P := by
  unfold Members.find? at hv
  split at hv
  · cases hv
    trivial
  · split at hv
    · cases hv
      exact hself
    · split at hv <;> cases hv
      exact hself

omit h in
theorem members_findInType? (m : Members) (type name : String)
    (hv : m.findInType? (.typeObject type) name = some v) : v.Within P := by
  unfold Members.findInType? at hv
  split at hv
  · cases hv
    trivial
  · split at hv
    · cases hv
      trivial
    · split at hv <;> cases hv
      trivial

omit h in
theorem within_typeObjects (names : List String) :
    (Value.ofItems (names.map .typeObject)).Within P := by
  refine Value.withinAll_iff.2 fun v hv => ?_
  obtain ⟨name, -, rfl⟩ := mem_map.1 hv
  trivial

omit h in
theorem typeAttribute? (type name : String) (hv : typeAttribute? type name = some v) :
    v.Within P := by
  unfold Heap.typeAttribute? at hv
  split at hv
  · obtain ⟨base, -, rfl⟩ := Option.map_eq_some_iff.1 hv
    trivial
  · split at hv <;> cases hv
    exact within_typeObjects _
  · split at hv <;> cases hv
    exact within_typeObjects _
  · cases hv
    trivial
  · cases hv
    trivial
  · cases hv
    trivial
  · cases hv
    trivial
  · exact orElse (fun _ => members_findInType? _ _ _) (fun _ => members_findInType? _ _ _) hv

omit h in
theorem macroAttribute? {m} (hm : m.Within P) (name : String)
    (hv : macroAttribute? m name = some v) : v.Within P := by
  unfold Heap.macroAttribute? at hv
  split at hv <;> cases hv
  · exact hm.function
  · exact Value.within_ofConstant _
  · refine Value.withinAll_iff.2 fun v hv => ?_
    obtain ⟨p, hp, rfl⟩ := mem_map.1 hv
    exact ⟨Value.within_ofConstant _, hm.params p hp, trivial⟩
  · exact hm.catchKwargs
  · exact hm.catchVarargs
  · exact hm.caller
  · trivial

theorem templateAttribute? (r : Ref) (name : String) (hv : w.templateAttribute? r name = some v) :
    v.Within P := by
  unfold Heap.templateAttribute? at hv
  split at hv <;> cases hv <;> first
    | trivial
    | exact Value.within_ofText? _
    | exact h.root r

theorem unitAttribute? (r : Ref) (name : String) (hv : w.unitAttribute? r name = some v) :
    v.Within P := by
  unfold Heap.unitAttribute? at hv
  split at hv <;> cases hv <;> first
    | trivial
    | exact h.root r

theorem ownAttribute? (hv : v.Within P) (name : String) (hx : w.ownAttribute? v name = some x) :
    x.Within P := by
  cases v with
  | record r => exact (h.objects.record r).find? hx
  | macroObject r => exact macroAttribute? (h.macroAt r) name hx
  | template r => exact h.templateAttribute? r name hx
  | unit r => exact h.unitAttribute? r name hx
  | typeObject type => exact typeAttribute? type name hx
  | typeAlias type argument =>
    simp only [ownAttribute?] at hx
    split at hx
    · cases hx
      trivial
    · cases hx
      exact ⟨hv, trivial⟩
    · cases hx
    · exact typeAttribute? type name hx
  | function r =>
    simp only [ownAttribute?] at hx
    split at hx
    · obtain ⟨s, -, rfl⟩ := Option.map_eq_some_iff.1 hx
      trivial
    · obtain ⟨s, -, rfl⟩ := Option.map_eq_some_iff.1 hx
      trivial
    · cases hx
  | method kind self method =>
    simp only [ownAttribute?] at hx
    split at hx <;> cases hx
    · trivial
    · trivial
    · exact hv
  | bound self field =>
    simp only [ownAttribute?] at hx
    split at hx <;> cases hx
    · trivial
    · exact hv
  | host f =>
    cases f <;> simp only [ownAttribute?, reduceCtorEq] at hx
    all_goals
      split at hx <;> cases hx
      trivial
  | _ =>
    simp only [ownAttribute?] at hx
    first
      | cases hx
      | (split at hx <;> cases hx <;> trivial)

theorem attribute? (hv : v.Within P) (name : String) (hx : w.attribute? v name = some x) :
    x.Within P := by
  refine orElse (fun _ => h.ownAttribute? hv name) (fun u hu => ?_) hx
  split at hu
  · cases hu
    trivial
  · cases hu
  · cases hu
  · exact orElse (fun _ => members_find? _ hv _) (fun _ => members_find? _ hv _) hu

end Heap.Holds

end Stencil
