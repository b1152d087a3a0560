import Stencil.Proofs.Sealing
import Stencil.Proofs.Units

/-!
# What the engine does to sealed states

Given calls that keep buffers apart (`Call.Shields`), everything the engine does apart from running
script functions keeps them apart: loading templates, rendering them, and calling values, entry
points and methods of the machinery. Entry points, the text form of a value and the render of a
template give texts.
-/

namespace Stencil

open Script List Table

variable {env v : Value} {args : List Value}

variable {α β : Type} {P P' : Lists} {A : Ref → Prop}

/-! ## Texts -/

/-- A value is a text. -/
def Value.IsText : Value → Prop
  | .str _ => True
  | _ => False

/-- A variable holds a text. -/
def Cell.IsText : Cell → Prop
  | .value v => v.IsText
  | _ => False

theorem Value.IsText.within (h : v.IsText) : v.Within P := by
  cases v <;> first | exact trivial | exact h.elim

theorem Cell.IsText.exists_value {c : Cell} (h : c.IsText) : ∃ v, c = .value v ∧ v.IsText := by
  cases c <;> first | exact ⟨_, rfl, h⟩ | exact h.elim

/-- A method that gives a text. -/
def Cell.Renders : Cell → Attr → Prop
  | .runtime, .toStr | .value (.template _), .render => True
  | _, _ => False

theorem Cell.eq_toStr_of_renders {field} (h : Cell.runtime.Renders field) : field = .toStr := by
  cases field <;> first | rfl | exact h.elim

theorem Cell.eq_render_of_renders {r field} (h : (Cell.value (.template r)).Renders field) :
    field = .render := by
  cases field <;> first | rfl | exact h.elim

namespace Eval

open Operation

theorem guards_newText_isText (s : String) :
    Guards False P (fun _ => Value.IsText) (newText s) := by
  unfold newText renew
  split
  · exact Guards.pure trivial
  · exact guards_newOrigin.bind fun _ _ _ _ => Guards.pure trivial

theorem guards_toText_isText (v : Value) : Guards False P (fun _ => Value.IsText) (toText v) := by
  refine (looks_outputOf v).guards_bind fun s => ?_
  unfold keptText
  split
  · split
    · exact Guards.pure trivial
    · exact guards_newText_isText s
  · exact guards_newText_isText s

end Eval

/-! ## Calls -/

/-- Calls that keep the buffers of others apart: they work on public lists only, and give texts
where entry points are called, the text form of a value is asked for or a template is rendered. -/
structure Call.Shields (call : Call) : Prop where
  value {P f args} : f.Within P → (∀ v ∈ args, v.Within P) →
    Eval.Shields nobody P (fun P' v => v.Within P' ∧ (f.IsEntry → v.IsText)) (call.value f args)
  enter {P e env} (c f : Ref) : e.Within P → env.Within P →
    Eval.Shields nobody P (fun _ => Value.IsText) (call.enter e env c f)
  method {P self} (field : Attr) {args} : self.Within P → (∀ c ∈ args, c.Within P) →
    Eval.Shields nobody P (fun P' c => c.Within P' ∧ (self.Renders field → c.IsText))
      (call.method self field args)
  block {P : Lists} (c : Ref) (name : Value) :
    Eval.Shields nobody P (fun P' b => ∃ v, b = .value v ∧ v.Within P')
      (call.method (.context c) .getBlock [.value name])

namespace Eval.Shields

variable {Q : Lists → α → Prop}

theorem toCell {x} (hx : Shields A P Value.Within x) :
    Shields A P Cell.Within (do return .value (← x)) :=
  hx.bind fun _ _ _ hv => .pure hv

theorem toTextCell {x} (hx : Shields A P (fun _ => Value.IsText) x) :
    Shields A P (fun _ => Cell.IsText) (do return .value (← x)) :=
  hx.bind fun _ _ _ hv => .pure hv

theorem thenPure {x a} {R : Lists → β → Prop} (hx : Shields A P R x) (ha : ∀ P', Q P' a) :
    Shields A P Q (x >>= fun _ => pure a) :=
  hx.bind fun P' _ _ _ => .pure (ha P')

theorem looks_bind {x : Operation β} {f} (hx : x.Looks)
    (hf : ∀ P' a, (∀ l, P l → P' l) → Shields A P' Q (f a)) : Shields A P Q (liftM x >>= f) :=
  (Shields.looks hx).bind fun P' a h _ => hf P' a h

end Eval.Shields

/-! ## Frames and contexts -/

namespace Eval

theorem shields_setInFrame (r : Ref) (name : String) (hv : v.Within P) :
    Shields A P Lists.any (setInFrame r name v) := by
  unfold setInFrame
  split
  · exact .pure trivial
  · exact shields_bindVariable r _ hv
  · refine .get_bind fun w hw => (Shields.lift guards_subDict).bind fun P₁ found h₁ _ => ?_
    obtain ⟨inner, isNew⟩ := found
    cases isNew with
    | true =>
      have hdict : (Value.dict inner).Within P₁ := trivial
      refine (shields_bindVariable r _ hdict).bind fun P₂ _ h₂ _ =>
        Shields.lift (guards_setPath id _ inner ?_)
      exact hv.mono fun l hl => h₂ l (h₁ l hl)
    | false => exact Shields.lift (guards_setPath id _ inner (hv.mono h₁))

theorem shields_popFrame (r : Ref) : Shields A P Lists.any (popFrame r) :=
  .get_bind fun _ _ => .pure trivial

theorem shields_resolve (c f : Ref) (name : String) :
    Shields A P Value.Within (resolve c f name) := by
  refine .get_bind fun w hw => ?_
  split
  · split
    · exact .pure trivial
    · exact .pure trivial
    next hfound => exact .pure (hw.lookupFrames name hfound)
  · exact .pure ((hw.heap.holds.context c).lookup name)

theorem shields_getSuper (henv : env.Within P) (r : Ref) (name : Constant) (block : Value) :
    Shields A P (fun _ v => ∃ q, v = .function q) (getSuper env r name block) := by
  refine .get_bind fun w hw => shields_newFunction ⟨henv, fun next hnext => ?_⟩
  exact (hw.heap.holds.context r).chainOf name next (Context.mem_chainOf_of_nextBlock? hnext)

end Eval

namespace Engine

open Eval

theorem shields_setVariable (r : Ref) (name : String) (hv : v.Within P) :
    Shields A P Lists.any (setVariable r name v) :=
  shields_modifyContext r fun _ hc => ⟨hc.vars.insert name hv, hc.blocks⟩

theorem shields_callContext (r : Ref) (field : Attr) (hargs : ∀ v ∈ args, v.Within P) :
    Shields A P Value.Within (callContext r field args) := by
  unfold callContext
  split
  · exact (shields_setVariable r _ (hargs _ (by simp))).thenPure fun _ => trivial
  · exact (shields_modifyContext r fun c hc => hc.addExport _).thenPure fun _ => trivial
  · exact (shields_modifyContext r fun c hc => hc.addBlock _ (hargs _ (by simp))).thenPure
      fun _ => trivial
  · exact .lift (guards_getBlock r _)
  · refine .get_bind fun w hw => .lift (guards_newDict ?_)
    rw [Dict.entries_ofEntries]
    intro e he
    obtain ⟨entry, hentry, rfl⟩ := mem_map.1 he
    exact ⟨trivial, (hw.heap.holds.context r).vars entry hentry⟩
  · exact .fail _

end Engine

/-! ## Loading -/

/-- A function of a compiled module prints to a buffer of its own. -/
theorem Script.Printer.closure {buffer f} (h : Printer buffer f) (r : Ref) :
    (f.closure r).Within P where
  captured := forall_mem_nil _
  params := h.params
  prints := by
    obtain ⟨ss, hbody, hss⟩ := h.body
    refine ⟨buffer, ss, h.isBuffer, ?_, hbody, hss⟩
    show buffer ∈ ownedBy f.params f.body
    rw [hbody]
    unfold ownedBy
    rw [mem_eraseDups]
    exact mem_append_right _ mem_cons_self

theorem Table.BindsFunctions.find? {t : Table String Value} (h : t.BindsFunctions) {key}
    (hv : t.find? key = some v) : ∃ q, v = .function q :=
  h _ (findIn_mem hv)

theorem Table.bindsFunctions_ofList {pairs} (h : ∀ e ∈ pairs, ∃ q, e.2 = .function q) :
    (ofList pairs).BindsFunctions :=
  fun e he => h e (mem_of_mem_ofList he)

theorem Except.exists_of_bind_eq_ok {ε : Type} {x} {f : α → Except ε β} {b} (h : x >>= f = .ok b) :
    ∃ a, x = .ok a ∧ f a = .ok b := by
  cases x with
  | error e => cases h
  | ok a => exact ⟨a, rfl, h⟩

theorem forall_mem_of_mapM_eq_ok {ε : Type} {f : α → Except ε β} {Q : β → Prop}
    (hf : ∀ a b, f a = .ok b → Q b) {l : List α} {bs} (h : l.mapM f = .ok bs) : ∀ b ∈ bs, Q b := by
  induction l generalizing bs with
  | nil =>
    cases h
    exact forall_mem_nil _
  | cons a rest ih =>
    rw [mapM_cons] at h
    obtain ⟨b, hb, h⟩ := Except.exists_of_bind_eq_ok h
    obtain ⟨bs, hbs, h⟩ := Except.exists_of_bind_eq_ok h
    cases h
    exact forall_mem_cons.2 ⟨hf a b hb, ih hbs⟩

theorem CompiledUnit.bindsFunctions_of_ofFunctions {functions : Table String Value}
    (h : functions.BindsFunctions) {names : List String} {u : CompiledUnit Value}
    (hu : CompiledUnit.ofFunctions functions names = .ok u) : u.entries.BindsFunctions := by
  obtain ⟨root, hroot, hu⟩ := Except.exists_of_bind_eq_ok hu
  obtain ⟨entries, hentries, hu⟩ := Except.exists_of_bind_eq_ok hu
  cases hu
  refine bindsFunctions_ofList (forall_mem_cons.2 ⟨?_, ?_⟩)
  · dsimp only at hroot
    split at hroot
    next hfind =>
      cases hroot
      exact h.find? hfind
    next => cases hroot
  · refine forall_mem_of_mapM_eq_ok (fun name e he => ?_) hentries
    obtain ⟨v, hv, he⟩ := Except.exists_of_bind_eq_ok he
    cases he
    dsimp only at hv
    split at hv
    next hfind =>
      cases hv
      exact h.find? hfind
    next => cases hv

namespace Eval

theorem shields_loadModule {m} (hm : m.IsCompiled) :
    Shields A P (fun _ => BindsFunctions) (loadModule m) := by
  have hprints := printer_of_isCompiled hm
  refine .modifyGet (fun _ => rfl)
    (fun _ => ⟨(Extends.refl _).push _, (Extends.refl _).append _, .refl _⟩)
    fun w hw => ⟨?_, ?_⟩
  · have hfs : ∀ g ∈ m.functions.map (fun f : Script.Function =>
        Function.closure (f.closure w.activations.size)), g.Within P :=
      forall_mem_map.2 fun f hf => (hprints f hf).closure _
    have hfunctions := hw.appendFunctions hfs
    refine hfunctions.pushActivation ⟨fun id c hc _ => ?_, fun id c hc hid => ?_⟩
    · obtain ⟨⟨id, v⟩, hv, hpair⟩ := mem_map.1 (mem_of_find?_ofList hc)
      cases hpair
      obtain ⟨_, _, -, -, rfl⟩ := mem_functionValues.1 hv
      trivial
    · obtain ⟨⟨id, v⟩, hv, hpair⟩ := mem_map.1 (mem_of_find?_ofList hc)
      cases hpair
      obtain ⟨_, f, hf, rfl, -⟩ := mem_functionValues.1 hv
      exact Bool.noConfusion ((hprints f (mem_of_getElem? hf)).name.symm.trans hid)
  · refine bindsFunctions_ofList fun e he => ?_
    obtain ⟨⟨id, v⟩, hv, rfl⟩ := mem_map.1 he
    obtain ⟨_, _, -, -, rfl⟩ := mem_functionValues.1 hv
    exact ⟨_, rfl⟩

theorem shields_loadUnit (tree : Node) (name? file? : Option String) :
    Shields A P (fun _ u => u.entries.BindsFunctions) (loadUnit tree name? file?) := by
  unfold loadUnit
  rcases hcompile : ({} : Compiler).compile tree false name? file? with ⟨e | m, c⟩
  · exact .fail e
  simp only [ofExcept, pure_bind]
  refine (shields_loadModule ⟨tree, name?, file?, c, hcompile⟩).bind fun _ functions _ hf => ?_
  have hunits {P' : Lists} : Shields A P' (fun _ u => u.entries.BindsFunctions)
      (ofExcept (CompiledUnit.ofFunctions functions c.blockTexts)) :=
    .ofExcept fun u hu => CompiledUnit.bindsFunctions_of_ofFunctions hf hu
  refine hunits.bind fun _ unit _ hunit => ?_
  exact (Shields.lift (guards_note _)).bind fun _ _ _ _ => .pure hunit

theorem shields_loadTemplate (tree : Node) (name? file? : Option String) :
    Shields A P Lists.any (loadTemplate tree name? file?) :=
  (shields_loadUnit tree name? file?).bind fun _ _ _ hunit => shields_newTemplate hunit

theorem shields_getTemplate (name : Value) (eager : Bool) :
    Shields A P Lists.any (getTemplate name eager) := by
  refine .get_bind fun w _ => ?_
  split
  · exact .looks_bind (looks_textOf name) fun _ _ _ => .fail _
  · refine (Shields.lift (Loader.guards_source name _)).bind fun _ found _ _ => ?_
    refine .looks_bind (looks_shownOf name) fun _ shown _ => ?_
    refine (Shields.lift (guards_note _)).bind fun _ _ _ _ => ?_
    exact shields_loadTemplate _ _ _

/-! ## Rendering -/

variable {Q : Lists → α → Prop} {x : Eval α}

theorem shields_inRender (template? : Option String) (hx : Shields A P Q x) :
    Shields A P Q (inRender template? x) := by
  refine .get_bind fun w _ => ?_
  split
  · exact hx.withState _
  · split
    · exact .fail _
    · exact hx.withState _

theorem shields_reporting (template? : Option String) (hx : Shields A P Q x) :
    Shields A P Q (reporting template? x) := by
  refine hx.recover _ fun f P' _ => .get_bind fun w _ => ?_
  have hwording : Shields A P' Lists.any (ofExcept f.wording : Eval String) :=
    .ofExcept fun _ _ => trivial
  exact hwording.bind fun _ _ _ _ => .fail _

end Eval

namespace Engine

open Eval

theorem shields_renderContext {t} (ht : t.blocks.Within P) {vars}
    (hvars : ∀ e ∈ vars, e.2.Within P) : Shields A P Lists.any (renderContext t vars) :=
  .get_bind fun _ hw => shields_newContext
    (.ofBlocks (hw.heap.surroundings.globals.insertAll hvars) ht)

variable {call : Call} (hc : call.Shields)

include hc

theorem shields_runEntry (t : Template) {entry} (he : entry.Within P) (context frame : Ref) :
    Shields nobody P (fun _ => Value.IsText) (runEntry call t entry context frame) :=
  shields_inRender _ (shields_reporting _ (hc.enter context frame he trivial))

theorem shields_render (r : Ref) {vars : List (String × Value)} (hvars : ∀ e ∈ vars, e.2.Within P)
    (frame? : Option Ref) :
    Shields nobody P (fun _ => Value.IsText) (render call r vars frame?) := by
  refine .get_bind fun w hw => .looks_bind (looks_checkAlive _) fun P₁ _ h₁ => ?_
  refine (shields_renderContext ((hw.heap.holds.blocks r).mono h₁)
    fun e he => (hvars e he).mono h₁).bind fun P₂ context h₂ _ => ?_
  refine (shields_openFrame _).bind fun P₃ frame h₃ _ => ?_
  exact shields_runEntry hc _ ((hw.heap.holds.root r).mono fun l hl => h₃ l (h₂ l (h₁ l hl))) _ _

theorem shields_getModule (r : Ref) : Shields nobody P Value.Within (getModule call r) := by
  refine .get_bind fun w hw => .looks_bind (looks_checkAlive _) fun P₁ _ h₁ => ?_
  refine (shields_renderContext ((hw.heap.holds.blocks r).mono h₁) (forall_mem_nil _)).bind
    fun P₂ context h₂ _ => ?_
  refine (shields_openFrame _).bind fun P₃ frame h₃ _ => ?_
  have hroot := (hw.heap.holds.root r).mono fun l hl => h₃ l (h₂ l (h₁ l hl))
  refine (shields_runEntry hc _ hroot _ _).bind
    fun _ _ _ _ => ?_
  exact .lift (guards_exportsDict context)

/-! ## Calls of values -/

theorem shields_callMacro (r : Ref) (hargs : ∀ v ∈ args, v.Within P) :
    Shields nobody P Value.Within (callMacro call r args) := by
  refine .looks_bind (looks_checkArity _ _ _) fun P₁ _ h₁ => .get_bind fun w hw => ?_
  have hm := hw.heap.holds.macroAt r
  have hpositional : (args.headD (.ofItems [])).Within P₁ := by
    cases args with
    | nil => exact trivial
    | cons v rest => exact (hargs v mem_cons_self).mono h₁
  have hkeywords : ((args.drop 1).headD .none).Within P₁ :=
    within_headD_drop (fun v hv => (hargs v hv).mono h₁) 1 trivial
  -- Both ways of getting the keyword arguments go on with the parameters.
  have hrun {P' : Lists} (h : ∀ l, P₁ l → P' l) {kwargs : Value} (hk : kwargs.Within P') :
      Shields nobody P' Value.Within (do
        call.value (w.macroAt r).function
          (← bindParams (args.headD (.ofItems [])) kwargs 0 (w.macroAt r).params)) := by
    refine (Shields.lift (guards_bindParams _ 0 (hpositional.mono h) hk
      fun p hp => (hm.params p hp).mono h)).bind fun P₂ vs h₂ hvs => ?_
    exact (hc.value (hm.function.mono fun l hl => h₂ l (h l hl)) hvs).weaken fun _ _ hv => hv.1
  refine .get_bind fun u _ => .ite ?_ ?_
  · exact (Shields.pure hkeywords).bind fun _ _ h hk => hrun h hk
  · exact (Shields.lift (guards_newDict (d := {}) fun _ he => nomatch he)).bind
      fun _ _ h hk => hrun h hk

theorem shields_callSuper (henv : env.Within P) (c : Ref) (name : Constant) {next? : Option Value}
    (hnext : MaybeWithin P next?) (given : Nat) :
    Shields nobody P (fun _ => Value.IsText) (callSuper call env c name next? given) := by
  cases next? with
  | none => exact .looks_bind (looks_checkArity _ _ _) fun _ _ _ => .fail _
  | some next =>
    refine .looks_bind (looks_checkArity _ _ _) fun P₁ _ h₁ => ?_
    refine (shields_openFrame _).bind fun P₂ frame h₂ _ => ?_
    have h (l : Ref) (hl : P l) : P₂ l := h₂ l (h₁ l hl)
    exact hc.enter c frame ((hnext next rfl).mono h) (henv.mono h)

theorem shields_enterProbe (name tag : String) (henv : env.Within P) (c : Ref) :
    Shields nobody P (fun _ => Value.IsText) (enterProbe call name tag env c) := by
  refine .ite ?_ (.lift (guards_newText_isText tag))
  refine (shields_getSuper henv c _ _).bind fun P₁ next h₁ hnext => ?_
  obtain ⟨q, rfl⟩ := hnext
  have hnext : (Value.function q).Within P₁ := trivial
  refine (hc.value hnext (forall_mem_nil _)).bind fun _ inner _ _ => ?_
  exact .looks_bind (looks_textOf inner) fun _ _ _ => .lift (guards_newText_isText _)

omit hc in
theorem shields_wrapMacro {function : Value} (hf : function.Within P) (name : Constant) {params}
    (hparams : ∀ p ∈ params, p.2.Within P) {flags} (hflags : ∀ v ∈ flags, v.Within P) :
    Shields A P Value.Within (wrapMacro function name params flags) := by
  refine .looks_bind (looks_checkArity _ _ _) fun P₁ _ h₁ => shields_newMacro ?_
  have hflag (i : Nat) : ((flags.drop i).headD (.bool false)).Within P₁ :=
    within_headD_drop (fun v hv => (hflags v hv).mono h₁) i trivial
  exact ⟨hf.mono h₁, fun p hp => (hparams p hp).mono h₁, hflag 0, hflag 1, hflag 2⟩

omit hc in
theorem within_of_signatureParam? (hv : v.Within P) {p} (h : signatureParam? v = some p) :
    p.2.Within P := by
  unfold signatureParam? at h
  split at h
  · obtain ⟨c, -, rfl⟩ := Option.map_eq_some_iff.1 h
    exact hv.2.1
  · cases h

omit hc in
theorem shields_callHelper (field : Attr) (hargs : ∀ v ∈ args, v.Within P) :
    Shields A P (fun P' v => v.Within P' ∧ (field = .toStr → v.IsText))
      (callHelper field args) := by
  refine .looks_bind (looks_checkHelper _ _) fun P₁ _ h₁ => ?_
  have hargs (v : Value) (hv : v ∈ args) : v.Within P₁ := (hargs v hv).mono h₁
  -- Only the text form of a value is promised to be a text.
  have hplain {x : Eval Value} (hx : Shields A P₁ Value.Within x) (hne : field ≠ .toStr) :
      Shields A P₁ (fun P' v => v.Within P' ∧ (field = .toStr → v.IsText)) x :=
    hx.weaken fun _ _ hv => ⟨hv, fun h => absurd h hne⟩
  split
  · exact hplain (.lift (guards_member (hargs _ (by simp)) (hargs _ (by simp)))) nofun
  · exact (Shields.lift (guards_toText_isText _)).weaken fun _ _ hv => ⟨hv.within, fun _ => hv⟩
  · refine hplain ?_ nofun
    exact .looks_bind (looks_isMacro _) fun _ _ _ => .pure trivial
  · exact hplain (.lift (guards_iterItems (hargs _ (by simp)))) nofun
  · exact .looks_bind (looks_textOf _) fun _ _ _ => .looks_bind (looks_shownOf _) fun _ _ _ =>
      .fail _
  · refine hplain (.get_bind fun w hw => ?_) nofun
    refine shields_wrapMacro (hargs _ (by simp)) _ (fun p hp => ?_) fun v hv =>
      hargs v (by simp [hv])
    obtain ⟨v, hv, hp⟩ := mem_filterMap.1 hp
    exact within_of_signatureParam? (hw.heap.objects.holds.listItems _ v hv) hp
  · exact hplain (.lift (guards_oneArgument _ hargs fun v _ => guards_floor v)) nofun
  · exact hplain (.lift (guards_arithmetic _ _ _ _)) nofun
  · exact .fail _

theorem shields_joinElements {separator} (hv : v.Within P) (hs : separator.Within P) :
    Shields nobody P Value.Within (BuiltinFilter.joinElements call v separator) := by
  unfold BuiltinFilter.joinElements
  split
  · exact .pure trivial
  · refine (Shields.lift (guards_attribute? hs "join")).bind fun P₁ joiner? h₁ hj => ?_
    cases joiner? with
    | some joiner =>
      refine (Shields.lift (guards_textsOf (hv.mono h₁))).bind fun P₂ texts h₂ htexts => ?_
      exact (hc.value ((hj joiner rfl).mono h₂) (forall_mem_singleton.2 htexts)).weaken
        fun _ _ h => h.1
    | none =>
      dsimp only
      split <;> exact .fail _

theorem shields_filter (b : BuiltinFilter) (hargs : ∀ v ∈ args, v.Within P) :
    Shields nobody P Value.Within (b.apply call args) := by
  refine .looks_bind (looks_checkArity _ _ _) fun P₁ _ h₁ => ?_
  have hargs (v : Value) (hv : v ∈ args) : v.Within P₁ := (hargs v hv).mono h₁
  have hargument (i : Nat) {other : Value} (ho : other.Within P₁) :
      ((args.drop i).headD other).Within P₁ := within_headD_drop hargs i ho
  have hvalue : (args.headD .none).Within P₁ := hargument 0 trivial
  have htext : (Value.ofText "").Within P₁ := trivial
  have hzero : (Value.ofInt 0).Within P₁ := trivial
  cases b with
  | upper | lower | title | capitalize => exact .lift (BuiltinFilter.guards_onText _ _)
  | trim => exact .lift (BuiltinFilter.guards_keepingText _ hvalue)
  | string => exact .lift (guards_toText hvalue)
  | replace =>
    refine .looks_bind (looks_outputOf _) fun P₂ text h₂ => ?_
    exact .lift (guards_replaceText (hvalue.mono h₂) text _ _ _)
  | length => exact .lift (BuiltinFilter.guards_countElements hvalue)
  | join => exact shields_joinElements hc hvalue (hargument 1 htext)
  | first => exact .lift (BuiltinFilter.guards_firstElement hvalue)
  | last => exact .lift (BuiltinFilter.guards_lastElement hvalue)
  | reverse => exact .lift (BuiltinFilter.guards_reverseElements hvalue)
  | default => exact .lift (BuiltinFilter.guards_orDefault hvalue (hargument 1 htext) _)
  | int =>
    have hint : Shields nobody P₁ Lists.any
        (ofExcept (BuiltinFilter.toInt (args.headD .none)) : Eval (Option Int)) :=
      .ofExcept fun _ _ => trivial
    refine hint.bind fun P₂ n? h₂ _ => ?_
    cases n? with
    | none => exact .pure ((hargument 1 hzero).mono h₂)
    | some n =>
      dsimp only
      split
      · exact .pure (hvalue.mono h₂)
      · exact .lift (guards_newInt n)

omit hc in
theorem within_variablesOf {w} (hw : w.Within P) (v : Value) :
    ∀ e ∈ variablesOf w v, e.2.Within P := by
  unfold variablesOf
  split
  · intro e he
    obtain ⟨entry, hentry, he⟩ := mem_filterMap.1 he
    unfold binding? at he
    split at he
    · cases he
      exact (hw.objects.holds.dictEntries _ entry hentry).2
    · cases he
  · exact forall_mem_nil _

theorem shields_callTemplate (r : Ref) (field : Attr) (args : List Value) :
    Shields nobody P (fun P' v => v.Within P' ∧ (field = .render → v.IsText))
      (callTemplate call r field args) := by
  have hrender {vars : List (String × Value)} (hvars : ∀ e ∈ vars, e.2.Within P) :
      Shields nobody P (fun P' v => v.Within P' ∧ (Attr.render = .render → v.IsText))
        (render call r vars none) :=
    (shields_render hc r hvars none).weaken fun _ _ hv => ⟨hv.within, fun _ => hv⟩
  unfold callTemplate
  split
  · exact hrender (forall_mem_nil _)
  · exact .get_bind fun w hw => hrender (within_variablesOf hw.heap _)
  · exact (shields_getModule hc r).weaken fun _ _ hv => ⟨hv, nofun⟩
  · exact .fail _

theorem shields_callMethod {self : Cell} (field : Attr) {args : List Cell} (hself : self.Within P)
    (hargs : ∀ c ∈ args, c.Within P) :
    Shields nobody P (fun P' c => c.Within P' ∧ (self.Renders field → c.IsText))
      (callMethod call self field args) := by
  have hvalues {cells : List Cell} (h : ∀ c ∈ cells, c.Within P) :
      Shields nobody P (fun P' vs => ∀ v ∈ vs, v.Within P') (liftM (valuesIn cells)) :=
    .lift (guards_valuesIn h)
  -- Only the text form of a value and the render of a template are promised to be texts.
  have hplain {x : Eval Cell} (hx : Shields nobody P Cell.Within x) (hne : ¬self.Renders field) :
      Shields nobody P (fun P' c => c.Within P' ∧ (self.Renders field → c.IsText)) x :=
    hx.weaken fun _ _ hc => ⟨hc, fun h => absurd h hne⟩
  have hvalue {v : Value} (hv : Cell.value v ∈ args) : v.Within P := hargs _ hv
  unfold callMethod
  split
  · exact hplain (shields_resolve _ _ _).toCell id
  · refine (hvalues hargs).bind fun P₁ vs _ hvs => ?_
    exact (shields_callHelper field hvs).bind fun _ v _ hv =>
      .pure ⟨hv.1, fun h => hv.2 (Cell.eq_toStr_of_renders h)⟩
  · refine hplain (Shields.toCell ?_) id
    refine (shields_getSuper (hvalue (by simp)) _ _ _).weaken fun _ v hv => ?_
    obtain ⟨q, rfl⟩ := hv
    trivial
  · refine hplain ((hvalues hargs).bind fun P₁ vs _ hvs => ?_) id
    exact (shields_callContext _ field hvs).toCell
  · exact hplain ((shields_openFrame _).bind fun _ _ _ _ => .pure trivial) id
  · refine hplain ((shields_popFrame _).bind fun _ f? _ _ => .pure ?_) id
    cases f? <;> trivial
  · exact hplain ((shields_setInFrame _ _ (hvalue (by simp))).thenPure fun _ => trivial) id
  · refine hplain ((hvalues fun c hc => hargs c (by simp [hc])).bind fun P₁ vs _ hvs => ?_) id
    exact (shields_getTemplate _ _).bind fun _ _ _ _ => .pure trivial
  · exact hplain (Shields.toCell (.lift (guards_getFilter _))) id
  · refine .get_bind fun w hw => ?_
    exact (shields_render hc _ (within_variablesOf hw.heap _) _).bind fun _ v _ hv =>
      .pure ⟨hv.within, fun _ => hv⟩
  · refine (hvalues hargs).bind fun P₁ vs _ hvs => ?_
    exact (shields_callTemplate hc _ field vs).bind fun _ v _ hv =>
      .pure ⟨hv.1, fun h => hv.2 (Cell.eq_render_of_renders h)⟩
  · exact hplain (Shields.toCell (.lift (guards_joinWith _ (hvalue (by simp))))) id
  · refine hplain (Shields.toCell (.lift ?_)) id
    exact guards_listMethod hself (forall_mem_singleton.2 (hvalue (by simp))) nofun
  · exact .fail _

/-! ## Functions -/

section

-- How script functions run is told elsewhere; here it is enough that they give texts.
variable {limit : Nat} (hclosure : ∀ {P : Lists} {c : Closure} {args : List Cell}, c.Within P →
    (∀ a ∈ args, a.Within P) →
    Shields nobody P (fun _ => Value.IsText) (callClosure call limit c args))

include hclosure

theorem shields_callFunction (r : Ref) {args} (hargs : ∀ a ∈ args, a.Within P) :
    Shields nobody P (fun _ => Value.IsText) (callFunction call limit r args) := by
  refine .get_bind fun w hw => ?_
  split
  next hr => exact hclosure (hw.functions r _ hr) hargs
  next hr => exact shields_callSuper hc (hw.functions r _ hr).1 _ _ (hw.functions r _ hr).2 _
  next => exact .fail _

theorem shields_apply {f} (hf : f.Within P) (hargs : ∀ v ∈ args, v.Within P) :
    Shields nobody P (fun P' v => v.Within P' ∧ (f.IsEntry → v.IsText))
      (apply call limit f args) := by
  -- Only functions are promised to give texts.
  have hplain {x : Eval Value} (hx : Shields nobody P Value.Within x) (hne : ¬f.IsEntry) :
      Shields nobody P (fun P' v => v.Within P' ∧ (f.IsEntry → v.IsText)) x :=
    hx.weaken fun _ _ hv => ⟨hv, fun h => absurd h hne⟩
  unfold apply
  split
  · exact (shields_callFunction hc hclosure _ (forall_mem_map.2 hargs)).weaken fun _ _ hv =>
      ⟨hv.within, fun _ => hv⟩
  · exact hplain (shields_callMacro hc _ hargs) id
  · exact hplain (.lift (HostFn.guards_run _ hargs)) id
  · exact hplain (shields_filter hc _ hargs) id
  · exact hplain (.lift (guards_unboundMethod _ hargs nofun)) id
  next self name _ =>
    have hself : self.Within P := hf
    exact hplain (.lift (guards_method hself hargs nofun)) id
  · exact hplain ((shields_callTemplate hc _ _ _).weaken fun _ _ hv => hv.1) id
  · exact .fail _

theorem shields_applyEntry {entry} (henv : env.Within P) (context frame : Ref) :
    Shields nobody P (fun _ => Value.IsText) (applyEntry call limit entry env context frame) := by
  unfold applyEntry
  split
  · refine shields_callFunction hc hclosure _ (forall_mem_cons.2 ⟨henv, ?_⟩)
    exact forall_mem_cons.2 ⟨trivial, forall_mem_cons.2 ⟨trivial, forall_mem_singleton.2 trivial⟩⟩
  · exact shields_enterProbe hc _ _ henv _
  · exact .fail _

end

end Engine

end Stencil
