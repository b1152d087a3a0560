import Stencil.Proofs.Guarding

/-!
# The library on public lists

The methods of values, the filters, the callables of the application, the loaders and the functions
of the runtime keep to public lists.
-/

namespace Stencil

open List

variable {α : Type} {C : Prop} {P : Lists}

namespace Eval

open Operation

/-! ## Methods -/

theorem guards_noArguments (name : String) (args : List Value) {x}
    (hx : Guards C P Value.Within x) : Guards C P Value.Within (noArguments name args x) :=
  Guards.ite (fun _ => hx) fun _ => Guards.fail _

theorem guards_oneArgument (name : String) {args} (hargs : ∀ v ∈ args, v.Within P) {f}
    (hf : ∀ v, v.Within P → Guards C P Value.Within (f v)) :
    Guards C P Value.Within (oneArgument name args f) := by
  unfold oneArgument
  split
  · exact hf _ (hargs _ mem_cons_self)
  · exact Guards.fail _

theorem looks_checkCount (name : String) (least most : Nat) (args : List Value) :
    Looks (checkCount name least most args) :=
  Looks.unless_fail _ (Looks.ite (Looks.fail _) (Looks.pure _))

theorem looks_textArgument (function argument : String) (v : Value) :
    Looks (textArgument function argument v) := by
  unfold textArgument
  split
  · exact Looks.pure _
  · exact Looks.fail _

theorem looks_intArgument (v : Value) : Looks (intArgument v) := by
  unfold intArgument
  split
  · exact Looks.ite (Looks.fail _) (Looks.pure _)
  · exact Looks.fail _

theorem looks_sectionArgument (v : Value) : Looks (sectionArgument v) := by
  unfold sectionArgument
  split
  · exact Looks.pure _
  · split
    · exact Looks.pure _
    · exact Looks.fail _

theorem looks_joinTexts (vs : List Value) : ∀ i, Looks (joinTexts i vs) := by
  induction vs with
  | nil => exact fun _ => Looks.pure _
  | cons v rest ih =>
    intro i
    cases v
    case str => exact (ih (i + 1)).bind fun _ => Looks.pure _
    all_goals exact Looks.fail _

theorem guards_replaceText {v} (hv : v.Within P) (s : String) (old new : Value)
    (count? : Option Value) : Guards C P Value.Within (replaceText v s old new count?) := by
  refine (looks_textArgument _ _ old).guards_bind fun old => ?_
  refine (looks_textArgument _ _ new).guards_bind fun new => ?_
  cases count? with
  | none => exact guards_keptText hv _
  | some count => exact (looks_intArgument count).guards_bind fun _ => guards_keptText hv _

theorem guards_splitText {self} (hself : self.Within P) (s : String) (sep : Value)
    (limit : Option Nat) : Guards C P Value.Within (splitText self s sep limit) := by
  have hpieces (pieces : List (List Char)) : Guards C P Value.Within (do
      newList (← pieces.mapM fun p => keptText self (String.ofList p))) :=
    (guards_mapM fun _ _ _ h => guards_keptText (hself.mono h) _).bind fun _ _ _ hvs =>
      guards_newList hvs
  unfold splitText
  split
  · exact hpieces _
  · exact Guards.fail_bind _ _
  · exact hpieces _
  · exact Guards.fail_bind _ _

theorem guards_affixText (function : String) (test : String → Bool) (v : Value) :
    Guards C P Value.Within (affixText function test v) := by
  have htuple (items : List Value) :
      Guards C P Value.Within (affixText.tupleTest function test items) := by
    induction items with
    | nil => exact Guards.pure trivial
    | cons v rest ih =>
      cases v
      case str s => exact Guards.ite (fun _ => Guards.pure trivial) fun _ => ih
      all_goals exact Guards.fail _
  unfold affixText
  split
  · exact Guards.pure trivial
  · exact htuple _
  · exact Guards.fail _

theorem guards_joinWith (sep : String) {v} (hv : v.Within P) :
    Guards C P Value.Within (joinWith sep v) := by
  refine Guards.heap_bind fun w _ => ?_
  split
  · refine (guards_elements hv).bind fun P₁ items _ hitems => ?_
    refine (looks_joinTexts items 0).guards_bind fun texts => ?_
    split
    · exact Guards.pure (hitems _ mem_cons_self)
    · exact guards_newText _
  · exact Guards.fail _

theorem within_headD_drop {args : List Value} (hargs : ∀ v ∈ args, v.Within P) (i : Nat) {other}
    (hother : other.Within P) : ((args.drop i).headD other).Within P := by
  cases h : args.drop i with
  | nil => exact hother
  | cons v rest =>
    refine hargs v (mem_of_mem_drop (i := i) ?_)
    rw [h]
    exact mem_cons_self

theorem guards_textMethod {self} (hself : self.Within P) (s name : String) {args}
    (hargs : ∀ v ∈ args, v.Within P) : Guards C P Value.Within (textMethod self s name args) := by
  unfold textMethod
  split
  · exact guards_noArguments _ _ (guards_newText _)
  · exact guards_noArguments _ _ (guards_newText _)
  · exact guards_noArguments _ _ (guards_newText _)
  · exact guards_noArguments _ _ (guards_newText _)
  · refine (looks_checkCount _ _ _ _).guards_bind fun _ => ?_
    split
    · exact guards_keptText hself _
    · exact guards_keptText hself _
    · exact guards_keptText hself _
    · exact Guards.fail _
  · refine Guards.ite (fun _ => Guards.fail_bind _ _) fun _ => ?_
    split
    · exact (looks_intArgument _).guards_bind fun _ => guards_splitText hself _ _ _
    · exact guards_splitText hself _ _ _
  · refine (looks_checkCount _ _ _ _).guards_bind fun _ => ?_
    split
    · exact guards_replaceText hself _ _ _ _
    · exact Guards.pure hself
  · refine Guards.ite (fun _ => Guards.fail_bind _ _) fun _ => ?_
    refine Guards.ite (fun _ => Guards.fail_bind _ _) fun _ => ?_
    exact (looks_sectionArgument _).guards_bind fun _ =>
      (looks_sectionArgument _).guards_bind fun _ => guards_affixText _ _ _
  · refine Guards.ite (fun _ => Guards.fail_bind _ _) fun _ => ?_
    refine Guards.ite (fun _ => Guards.fail_bind _ _) fun _ => ?_
    exact (looks_sectionArgument _).guards_bind fun _ =>
      (looks_sectionArgument _).guards_bind fun _ => guards_affixText _ _ _
  · exact guards_oneArgument _ hargs fun v hv => guards_joinWith s hv
  · exact Guards.fail _

/-- A public list may get another content, if that is allowed. -/
theorem guards_changeList (hC : ¬C) {r} (hr : P r) {g : Store (Array Value) → Store (Array Value)}
    (hsize : ∀ lists, (g lists).size = lists.size)
    (hne : ∀ lists l, r ≠ l → (g lists).get? l = lists.get? l)
    (hg : ∀ o : Objects, o.Holds P → ∀ items, (g o.lists).get? r = some items →
      ∀ v ∈ items.toList, v.Within P) {v} (hv : v.Within P) : Guards C P Value.Within (do
      modify fun o => { o with lists := g o.lists }
      return v : Operation Value) := by
  intro s o _ ho
  refine ⟨P, ?_, ho.changeList (hne o.lists) (hg o ho), ?_⟩
  · exact
      { mono := fun _ h => h
        size := Nat.le_of_eq (hsize o.lists).symm
        hidden := fun _ _ h => h
        kept := fun l _ hl => hne o.lists l fun h => hl (h ▸ hr)
        dicts := Nat.le_refl _
        exist := fun h l hl => Nat.lt_of_lt_of_eq (h l hl) (hsize o.lists).symm
        grown := fun hc => (hC hc).elim }
  · intro u hu
    cases hu
    exact hv

/-- A method call that changes no list and no dictionary: only methods with another name, which take
fewer arguments, do so. -/
def CallsHarmless (name : String) (args : List Value) : Prop :=
  name = "join" ∨ 3 ≤ args.length

theorem CallsHarmless.fails_listMethod {name args} (h : CallsHarmless name args) (r : Ref) :
    Fails (listMethod r name args) := by
  obtain rfl | h := h
  · exact .fail _
  · match args, h with
    | a :: b :: c :: rest, _ =>
      unfold listMethod
      split
      · exact .fail _
      · exact fun _ _ => ⟨_, rfl⟩
      · exact .fail _

theorem CallsHarmless.fails_dictMethod {name args} (h : CallsHarmless name args) (r : Ref) :
    Fails (dictMethod r name args) := by
  obtain rfl | h := h
  · exact .fail _
  · match args, h with
    | a :: b :: c :: rest, _ =>
      unfold dictMethod
      split
      · exact fun _ _ => ⟨_, rfl⟩
      · exact .fail _
      · exact .fail _
      · exact .fail _
      · exact fun _ _ => ⟨_, rfl⟩
      · exact .fail _

theorem guards_listMethod {r} (hr : P r) {name : String} {args} (hargs : ∀ v ∈ args, v.Within P)
    (h : C → CallsHarmless name args) : Guards C P Value.Within (listMethod r name args) := by
  by_cases hC : C
  · exact ((h hC).fails_listMethod r).guards
  unfold listMethod
  split
  · refine guards_oneArgument _ hargs fun v hv => ?_
    refine guards_changeList hC hr (fun _ => Store.size_modify _ _ _)
      (fun lists l h => lists.get?_modify_of_ne _ h) (fun o ho items hitems u hu => ?_) trivial
    rw [o.lists.get?_modify_self, Option.map_eq_some_iff] at hitems
    obtain ⟨before, hbefore, rfl⟩ := hitems
    rw [Array.toList_push, mem_append, mem_singleton] at hu
    rcases hu with hu | rfl
    · exact ho.lists r before hbefore u hu
    · exact hv
  · refine (looks_checkCount _ _ _ _).guards_bind fun _ => ?_
    have hpop (i : Int) : Guards C P Value.Within (do
        let w ← heap
        let items := w.listItems r
        if items.isEmpty then
          fail .popFromEmptyList
        let i := if i < 0 then i + items.length else i
        if i < 0 ∨ i ≥ items.length then
          fail .popIndexOutOfRange
        modify fun o => { o with lists := o.lists.set r (items.eraseIdx i.toNat).toArray }
        return items[i.toNat]?.getD .none : Operation Value) := by
      refine Guards.heap_bind fun w hw => ?_
      refine Guards.ite (fun _ => Guards.fail_bind _ _) fun _ => ?_
      refine Guards.ite (fun _ => Guards.fail_bind _ _) fun _ => ?_
      have hitems := hw.objects.listItems r
      refine guards_changeList hC hr (fun _ => Store.size_set _ _ _)
        (fun lists l h => lists.get?_set_of_ne _ h) (fun o ho items h u hu => ?_) ?_
      · rcases Store.get?_set_eq_some h with h | rfl
        · exact ho.lists r items h u hu
        · exact hitems u (mem_of_mem_eraseIdx hu)
      · exact MaybeWithin.getD (fun u hu => hitems u (mem_of_getElem? hu)) trivial
    split
    · exact (looks_intArgument _).guards_bind hpop
    · exact hpop _
  · exact Guards.fail _

theorem guards_dictMethod (r : Ref) {name : String} {args} (hargs : ∀ v ∈ args, v.Within P)
    (h : C → CallsHarmless name args) : Guards C P Value.Within (dictMethod r name args) := by
  by_cases hC : C
  · exact ((h hC).fails_dictMethod r).guards
  unfold dictMethod
  split
  · refine (looks_checkCount _ _ _ _).guards_bind fun _ => ?_
    refine (looks_checkKey _).guards_bind fun _ => Guards.heap_bind fun w hw => ?_
    exact Guards.pure (MaybeWithin.getD (fun _ => Heap.Holds.findEntry? (hw.objects.dictEntries r))
      (within_headD_drop hargs 1 trivial))
  · exact guards_noArguments _ _ (Guards.pure trivial)
  · exact guards_noArguments _ _ (Guards.pure trivial)
  · exact guards_noArguments _ _ (Guards.pure trivial)
  · refine (looks_checkCount _ _ _ _).guards_bind fun _ => Guards.heap_bind fun w hw => ?_
    have hentries := hw.objects.dictEntries r
    refine Guards.ite (fun _ => (looks_checkKey _).guards_bind fun _ => ?_) fun _ => ?_
    all_goals
      split
      next hv =>
        exact (Guards.setDict hC r (hentries.remove _)).bind fun _ _ h _ =>
          Guards.pure ((Heap.Holds.findEntry? hentries hv).mono h)
      next hother =>
        refine Guards.pure (hargs _ (mem_of_mem_drop (i := 1) ?_))
        rw [hother]
        exact mem_cons_self
      next => exact Guards.fail _
  · exact Guards.fail _

theorem guards_method {self} (hself : self.Within P) {name args} (hargs : ∀ v ∈ args, v.Within P)
    (h : C → CallsHarmless name args) : Guards C P Value.Within (method self name args) := by
  unfold method
  split
  · exact guards_textMethod hself _ name hargs
  · exact guards_listMethod hself hargs h
  · exact guards_dictMethod _ hargs h
  · exact Guards.fail _

theorem guards_unboundMethod (type : String) {name args} (hargs : ∀ v ∈ args, v.Within P)
    (h : C → name = "join" ∨ 4 ≤ args.length) :
    Guards C P Value.Within (unboundMethod type name args) := by
  unfold unboundMethod
  split
  · exact Guards.fail _
  · rw [forall_mem_cons] at hargs
    refine Guards.ite (fun _ => guards_method hargs.1 hargs.2 fun hC => ?_) fun _ => Guards.fail _
    exact (h hC).imp_right fun h => Nat.le_of_succ_le_succ h

theorem guards_attribute? {v} (hv : v.Within P) (name : String) :
    Guards C P MaybeWithin (attribute? v name) := by
  refine Guards.heap_bind fun w hw => ?_
  split
  · exact (guards_newFloat _).bind fun _ _ _ hx => Guards.pure (maybeWithin_some hx)
  · exact (guards_newFloat _).bind fun _ _ _ hx => Guards.pure (maybeWithin_some hx)
  · refine (guards_newDict ?_).bind fun _ _ _ hx => Guards.pure (maybeWithin_some hx)
    rw [Dict.entries_ofEntries]
    exact hw.blockEntries _
  · exact Guards.ite (fun _ => Guards.pure (maybeWithin_some trivial)) fun _ => Guards.fail _
  · exact Guards.pure fun _ => hw.attribute? hv name

theorem looks_isMacro (v : Value) : Looks (isMacro v) := by
  refine .heap_bind fun w => ?_
  split
  · exact Looks.pure _
  · exact Looks.pure _

theorem guards_member {v key} (hv : v.Within P) (hkey : key.Within P) :
    Guards C P Value.Within (member v key) := by
  unfold member
  split
  · exact Guards.pure trivial
  · exact Guards.pure trivial
  · refine Guards.heap_bind fun w hw => ?_
    split
    next hx => exact guards_taken v (hw.subscript hv hkey hx)
    next =>
      split
      · exact (guards_attribute? hv _).bind fun _ _ _ hx => Guards.pure (hx.getD trivial)
      · exact Guards.pure trivial

end Eval

/-! ## Filters -/

namespace BuiltinFilter

open Operation Eval

theorem guards_onText (f : String → String) (v : Value) : Guards C P Value.Within (onText f v) :=
  (looks_outputOf v).guards_bind fun _ => guards_newText _

theorem guards_keepingText (f : String → String) {v} (hv : v.Within P) :
    Guards C P Value.Within (keepingText f v) :=
  (looks_outputOf v).guards_bind fun _ => guards_keptText hv _

theorem guards_countElements {v} (hv : v.Within P) : Guards C P Value.Within (countElements v) := by
  unfold countElements
  split
  · exact guards_newInt _
  · refine Guards.heap_bind fun w _ => ?_
    split
    · exact guards_newInt _
    · exact (guards_elements hv).bind fun _ _ _ _ => guards_newInt _

theorem guards_firstElement {v} (hv : v.Within P) : Guards C P Value.Within (firstElement v) := by
  refine Guards.heap_bind fun w hw => ?_
  refine Guards.ite (fun _ => Guards.pure trivial) fun _ => ?_
  split
  · exact Guards.fail _
  next hit =>
    refine (guards_iteration_next (hw.iteration? hv hit)).bind fun P₁ r _ hr => ?_
    split
    · exact guards_taken v (hr _ _ rfl).1
    · exact Guards.fail _

theorem guards_lastElement {v} (hv : v.Within P) : Guards C P Value.Within (lastElement v) := by
  refine Guards.heap_bind fun w hw => ?_
  refine Guards.ite (fun _ => Guards.pure trivial) fun _ => ?_
  split
  next hx =>
    have hlast : (Value.ofInt (-1)).Within P := trivial
    exact guards_taken v (hw.subscript hv hlast hx)
  next =>
    refine Guards.ite (fun _ => ?_) fun _ => Guards.fail _
    refine (guards_elements hv).bind fun P₁ items _ hitems => ?_
    split
    next hx => exact Guards.pure (hitems _ (mem_of_getLast? hx))
    next => exact Guards.fail _

theorem guards_reverseElements {v} (hv : v.Within P) :
    Guards C P Value.Within (reverseElements v) := by
  unfold reverseElements
  split
  · exact guards_newList (forall_mem_nil _)
  · exact guards_newText _
  · exact (guards_elements hv).bind fun _ _ _ hvs =>
      guards_newList fun v hv => hvs v (mem_reverse.1 hv)

theorem guards_orDefault {v fallback} (hv : v.Within P) (hfallback : fallback.Within P)
    (boolean : Value) : Guards C P Value.Within (orDefault v fallback boolean) := by
  refine Guards.heap_bind fun w _ => ?_
  refine Guards.ite (fun _ => Guards.pure hfallback) fun _ => ?_
  exact Guards.ite (fun _ => Guards.pure hfallback) fun _ => Guards.pure hv

end BuiltinFilter

/-! ## Callables of the application -/

namespace HostFn

open Operation Eval

theorem guards_toValue (s : RenderState) : Guards C P Value.Within s.toValue := by
  refine (guards_mapM fun e _ _ _ => guards_newList ?_).bind fun P₁ stack _ hstack => ?_
  · simp [Value.Within, Value.ofText, Value.ofInt]
  · refine (guards_newList hstack).bind fun P₂ v _ hv => guards_newList ?_
    simp [Value.within_ofText?, Value.Within, Value.ofInt, hv]

theorem guards_run (f : HostFn) {args : List Value} (hargs : ∀ v ∈ args, v.Within P) :
    Guards C P Value.Within (f.run args) := by
  have hfirst : (args.headD .none).Within P := within_headD_drop hargs 0 trivial
  unfold run
  split
  · exact guards_newList hargs
  · exact guards_newList hargs
  · exact guards_newList hargs
  · exact (Looks.mapM looks_textOf args).guards_bind fun _ => guards_newText _
  · exact Guards.pure hfirst
  · exact Guards.pure trivial
  · exact Guards.heap_bind fun w _ => Guards.modify_bind (fun _ => ⟨.of_eq rfl rfl rfl, rfl⟩)
      (fun _ ho => ho.congr rfl rfl rfl rfl rfl) (Guards.pure hfirst)
  · exact Guards.modify_bind (fun _ => ⟨.of_eq rfl rfl rfl, rfl⟩)
      (fun _ ho => ho.congr rfl rfl rfl rfl rfl) (Guards.get_bind fun _ _ => guards_newInt _)
  · refine Guards.heap_bind fun w _ => ?_
    split
    · exact guards_toValue _
    · exact Guards.pure trivial
  · exact Guards.fail _
  · exact Guards.fail _
  · exact Guards.fail _
  · exact Guards.fail _
  · exact guards_newText _

end HostFn

/-! ## Loaders -/

/-- The tree that a loading function has found. -/
def Found.root : Found → Node
  | .tree n | .treeAndFile n _ => n

namespace Loader

open Operation Eval

mutual

/-- The trees of all templates that a loader has. -/
def trees : Loader → List Node
  | .absent => []
  | .dict templates => templates.map (·.2)
  | .function templates => templates.map (·.2.root)
  | .choice loaders => treesOfAll loaders
  | .byPrefix loaders _ => treesBehind loaders

/-- The trees of all templates that some loaders have. -/
def treesOfAll : List Loader → List Node
  | [] => []
  | l :: rest => l.trees ++ treesOfAll rest

/-- The trees of all templates that loaders behind some beginnings have. -/
def treesBehind : List (String × Loader) → List Node
  | [] => []
  | (_, l) :: rest => l.trees ++ treesBehind rest

end

theorem guards_named? (pairs : List (String × α)) (name : Value) :
    Guards C P (fun _ found? => ∀ a, found? = some a → a ∈ pairs.map (·.2))
      (named? pairs name) := by
  unfold named?
  split
  · exact Guards.fail _
  · split
    · exact Guards.pure fun a ha => mem_map.2 ⟨_, Table.findIn_mem ha, rfl⟩
    · exact Guards.pure fun a ha => by cases ha

theorem guards_unpack (found : Found) :
    Guards C P (fun _ r => r.1 = found.root) (unpack found) := by
  unfold unpack
  split
  · exact Guards.pure rfl
  · exact Guards.fail _
  · exact Guards.pure rfl

theorem guards_splitName (delimiter : String) (name : Value) :
    Guards C P Lists.any (splitName delimiter name) := by
  refine (guards_within _ name).bind fun P₁ found _ _ => ?_
  refine Guards.ite (fun _ => ?_) fun _ => Guards.pure trivial
  split
  · refine Guards.ite (fun _ => Guards.fail_bind _ _) fun _ => ?_
    split
    · exact Guards.pure trivial
    · exact Guards.pure trivial
  · exact Guards.fail _

mutual

/-- A loader finds only trees that it has. -/
theorem guards_source (name : Value) : ∀ (l : Loader) {P : Lists},
    Guards C P (fun _ r => r.1 ∈ l.trees) (source name l)
  | .absent, _ => Guards.fail _
  | .dict templates, _ => by
    refine (guards_named? templates name).bind fun _ tree? _ hfound => ?_
    cases tree? with
    | some tree => exact Guards.pure (hfound tree rfl)
    | none =>
      refine (looks_textOf name).guards_bind fun _ => (looks_shownOf name).guards_bind fun _ => ?_
      exact (guards_note _).bind fun _ _ _ _ => Guards.fail _
  | .function templates, _ => by
    refine (guards_named? templates name).bind fun _ found? _ hfound => ?_
    cases found? with
    | some found =>
      obtain ⟨entry, hentry, rfl⟩ := mem_map.1 (hfound found rfl)
      refine (guards_unpack entry.2).weaken fun _ r hr => ?_
      exact mem_map.2 ⟨entry, hentry, hr.symm⟩
    | none =>
      refine (looks_shownOf name).guards_bind fun _ => (guards_note _).bind fun _ _ _ _ => ?_
      exact (looks_textOf name).guards_bind fun _ => Guards.fail _
  | .choice loaders, _ => guards_firstSource name loaders.length loaders
  | .byPrefix loaders delimiter, _ => by
    refine (guards_splitName delimiter name).bind fun P₁ part _ _ => ?_
    obtain ⟨start, rest⟩ := part
    dsimp only
    split
    · exact Guards.fail _
    · split
      · exact guards_prefixSource name _ _ _ loaders
      · exact (looks_textOf _).guards_bind fun _ => (looks_textOf _).guards_bind fun _ =>
          Guards.fail _

theorem guards_firstSource (name : Value) (count : Nat) : ∀ (loaders : List Loader) {P : Lists},
    Guards C P (fun _ r => r.1 ∈ treesOfAll loaders) (firstSource name count loaders)
  | [], _ => (looks_textOf name).guards_bind fun _ => Guards.fail _
  | l :: rest, _ =>
    ((guards_source name l).weaken fun _ _ h => mem_append_left _ h).recover isMiss
      fun _ _ _ => (guards_firstSource name count rest).weaken fun _ _ h =>
        mem_append_right _ h

theorem guards_prefixSource (name : Value) (start rest : String) (available : List String) :
    ∀ (loaders : List (String × Loader)) {P : Lists}, Guards C P
      (fun _ r => r.1 ∈ treesBehind loaders) (prefixSource name start rest available loaders)
  | [], _ => (looks_textOf name).guards_bind fun _ => Guards.fail _
  | (s, l) :: more, P => by
    have hsource : Guards C P (fun _ r => r.1 ∈ treesBehind ((s, l) :: more))
        (source (.ofText rest) l) :=
      (guards_source (.ofText rest) l).weaken fun _ _ h => mem_append_left _ h
    have hmore : Guards C P (fun _ r => r.1 ∈ treesBehind ((s, l) :: more))
        (prefixSource name start rest available more) :=
      (guards_prefixSource name start rest available more).weaken fun _ _ h =>
        mem_append_right _ h
    cases l
    case absent => exact hmore
    all_goals
      exact Guards.ite (fun _ => hsource) fun _ => hmore

end

end Loader

/-! ## Contexts, frames and the functions of the runtime -/

namespace Eval

open Operation

theorem guards_getBlock (r : Ref) (name : Constant) :
    Guards C P Value.Within (getBlock r name) := by
  refine Guards.heap_bind fun w hw => ?_
  split
  next hchain =>
    refine Guards.pure ((hw.context r).chainOf name _ ?_)
    rw [hchain]
    exact mem_cons_self
  next => exact Guards.fail _

theorem guards_exportsDict (r : Ref) : Guards C P Value.Within (exportsDict r) := by
  refine Guards.heap_bind fun w hw => guards_newDict ?_
  rw [Dict.entries_ofEntries]
  intro e he
  obtain ⟨entry, hentry, rfl⟩ := mem_map.1 he
  obtain ⟨name, -, rfl⟩ := mem_map.1 hentry
  exact ⟨trivial, (hw.context r).lookup name⟩

theorem guards_subDict {found?} : Guards C P Lists.any (subDict found?) := by
  unfold subDict
  split
  · exact Guards.pure trivial
  · exact .modifyGet (fun o => ⟨.pushDict o {}, rfl⟩) fun _ ho =>
      ⟨ho.pushDict (forall_mem_nil _), trivial⟩

theorem guards_setPath (hC : ¬C) {v} : ∀ (parts : List String) (r : Ref) {P : Lists}, v.Within P →
    Guards C P Lists.any (setPath r parts v) := by
  intro parts
  induction parts with
  | nil => exact fun _ _ _ => Guards.pure trivial
  | cons part rest ih =>
    intro r P hv
    cases rest with
    | nil => exact guards_setEntry hC r (trivial : (Value.ofText part).Within P) hv
    | cons next more =>
      refine Guards.heap_bind fun w _ => guards_subDict.bind fun P₁ found h₁ _ => ?_
      have hrest {P' : Lists} (h : ∀ l, P₁ l → P' l) :
          Guards C P' Lists.any (setPath found.1 (next :: more) v) :=
        ih found.1 (hv.mono fun l hl => h l (h₁ l hl))
      refine Guards.ite (fun _ => ?_) fun _ => hrest fun _ h => h
      have hkey : (Value.ofText part).Within P₁ := trivial
      have hdict : (Value.dict found.1).Within P₁ := trivial
      exact (guards_setEntry hC r hkey hdict).bind fun _ _ h _ => hrest h

theorem perform_heap_bind (g : Heap → Operation α) (s : Surroundings) (o : Objects) :
    (heap >>= g).perform s o = (g (Heap.mk o s)).perform s o :=
  rfl

theorem find?_of_getFilter {name s o u f} (h : (getFilter name).perform s o = (.ok f, u)) :
    s.env.filters.find? name = some f := by
  unfold getFilter at h
  rw [perform_heap_bind] at h
  split at h
  · cases h
  · cases h
  next g hg =>
    cases h
    exact hg

theorem guards_getFilter (name : String) : Guards C P Value.Within (getFilter name) := by
  refine Guards.heap_bind fun w hw => ?_
  split
  · exact Guards.fail _
  · exact Guards.fail _
  next hf => exact Guards.pure (hw.surroundings.filters.find? hf)

theorem looks_checkAlive (template? : Option String) : Looks (checkAlive template?) :=
  .heap_bind fun _ => .ite (.fail _) (.pure _)

theorem looks_checkArity (function : String) (p : Parameters) (given : Nat) :
    Looks (checkArity function p given) := by
  unfold checkArity
  split
  · exact Looks.fail _
  · exact Looks.pure _

end Eval

namespace Engine

open Operation Eval

theorem guards_bindParam {args kwargs} (i : Nat) {param} (hargs : args.Within P)
    (hkwargs : kwargs.Within P) (hparam : param.2.Within P) :
    Guards C P Value.Within (bindParam args kwargs i param) := by
  refine (looks_length args).guards_bind fun n => Guards.ite (fun _ => ?_) fun _ => ?_
  · have hposition : (Value.ofInt i).Within P := trivial
    exact guards_subscript hargs hposition
  · refine (guards_within _ kwargs).bind fun P₁ found h₁ _ => Guards.ite (fun _ => ?_) fun _ => ?_
    · exact guards_subscript (hkwargs.mono h₁) (Value.within_ofConstant _)
    · exact Guards.pure (hparam.mono h₁)

theorem guards_bindParams {args kwargs} : ∀ (params : List (Constant × Value)) (i : Nat)
    {P : Lists}, args.Within P → kwargs.Within P → (∀ p ∈ params, p.2.Within P) →
    Guards C P (fun P' vs => ∀ v ∈ vs, v.Within P') (bindParams args kwargs i params) := by
  intro params
  induction params with
  | nil => exact fun _ _ _ _ _ => Guards.pure (forall_mem_nil _)
  | cons param rest ih =>
    intro i P hargs hkwargs hparams
    obtain ⟨hparam, hrest⟩ := forall_mem_cons.1 hparams
    refine (guards_bindParam i hargs hkwargs hparam).bind fun P₁ v h₁ hv => ?_
    refine (ih (i + 1) (hargs.mono h₁) (hkwargs.mono h₁) fun p hp => (hrest p hp).mono h₁).bind
      fun P₂ vs h₂ hvs => ?_
    exact Guards.pure (forall_mem_cons.2 ⟨hv.mono h₂, hvs⟩)

theorem guards_iterItems {v} (hv : v.Within P) : Guards C P Value.Within (iterItems v) := by
  have hpairs {entries : List (Value × Value)} (h : PairsWithin P entries) :
      Guards C P Value.Within (newList (entries.map fun e => .ofItems [e.1, e.2])) := by
    refine guards_newList fun x hx => ?_
    obtain ⟨e, he, rfl⟩ := mem_map.1 hx
    exact ⟨(h e he).1, (h e he).2, trivial⟩
  unfold iterItems
  split
  · exact Guards.pure trivial
  · exact Guards.heap_bind fun w hw => hpairs (hw.unitEntries _)
  · exact Guards.heap_bind fun w hw => hpairs (hw.blockEntries _)
  · refine Guards.heap_bind fun w _ => ?_
    split
    · exact Guards.pure hv
    · exact Guards.fail _

theorem looks_checkHelper (field : Script.Attr) (given : Nat) :
    Looks (checkHelper field given) := by
  unfold checkHelper
  split
  · exact looks_checkArity _ _ _
  · exact Looks.pure _

end Engine

theorem Script.guards_callCore (f : CoreFn) {args} (hargs : ∀ v ∈ args, v.Within P) :
    Operation.Guards C P Value.Within (callCore f args) := by
  unfold callCore
  split
  · exact (Eval.looks_length _).guards_bind fun n => Eval.guards_newInt n
  · exact (Eval.guards_elements (hargs _ mem_cons_self)).bind fun _ _ _ h =>
      Eval.guards_newList h
  · exact .pure trivial
  · exact .fail _

end Stencil
