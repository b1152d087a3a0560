import Stencil.Proofs.Activation
import Stencil.Proofs.Library
import Stencil.Proofs.Units

/-!
# Templates that are loaded

Finding a template with a loader only records messages (`Loader.quiet_source`), and loading it puts
its functions behind those that are there (`Eval.outcome_getTemplate`). `Template.Loaded` says what
a state holds of a template that was loaded into it.
-/

namespace Stencil

open Compile Eval Script Table

variable {tree : Node} {m : Module} {w : World}

variable {α β : Type}

/-! ## Operations that only record messages -/

/-- An operation that gives the same result in every state and does no more to it than record
messages. -/
def Operation.Quiet (x : Operation α) : Prop :=
  ∃ result ms, ∀ s o, x.perform s o = (result, { o with messages := o.messages ++ ms })

namespace Operation.Quiet

variable {x : Operation α}

protected theorem pure (a : α) : Quiet (pure a) :=
  ⟨.ok a, #[], fun s o => by rw [Array.append_empty]; rfl⟩

protected theorem fail (f : Fault) : Quiet (fail f : Operation α) :=
  ⟨.error f, #[], fun s o => by rw [Array.append_empty]; rfl⟩

theorem note (message : String) : Quiet (note message) :=
  ⟨.ok (), #[message], fun s o => by rw [← Array.push_eq_append]; rfl⟩

protected theorem bind {f : α → Operation β} (hx : Quiet x) (hf : ∀ a, Quiet (f a)) :
    Quiet (x >>= f) := by
  obtain ⟨result, ms, hx⟩ := hx
  cases result with
  | error e => exact ⟨.error e, ms, fun s o => by rw [perform_bind, hx]⟩
  | ok a =>
    obtain ⟨result, ms', hf⟩ := hf a
    refine ⟨result, ms ++ ms', fun s o => ?_⟩
    rw [perform_bind, hx]
    dsimp only
    rw [hf, Array.append_assoc]

theorem recover (accepts : Fault → Bool) {f} (hx : Quiet x) (hf : ∀ e, Quiet (f e)) :
    Quiet (recover accepts x f) := by
  obtain ⟨result, ms, hx⟩ := hx
  cases result with
  | ok a => exact ⟨.ok a, ms, fun s o => perform_recover_of_ok accepts f (hx s o)⟩
  | error e =>
    have hhandler : Quiet (if accepts e then f e else fail e) := by
      split
      · exact hf e
      · exact .fail e
    obtain ⟨result, ms', hhandler⟩ := hhandler
    refine ⟨result, ms ++ ms', fun s o => ?_⟩
    rw [perform_recover_of_error accepts f (hx s o), hhandler, Array.append_assoc]

theorem textOf (s : String) : Quiet (textOf (.ofText s)) :=
  ⟨.ok s, #[], fun _ o => by rw [Array.append_empty]; rfl⟩

theorem shownOf (s : String) : Quiet (shownOf (.ofText s)) :=
  ⟨.ok (Text.quoted s), #[], fun _ o => by rw [Array.append_empty]; rfl⟩

end Operation.Quiet

namespace Loader

open Operation (Quiet)

theorem quiet_named? {pairs : List (String × α)} (name : String) :
    Quiet (named? pairs (.ofText name)) :=
  .pure _

theorem quiet_unpack (found : Found) : Quiet (unpack found) := by
  unfold unpack
  split
  · exact .pure _
  · exact .fail _
  · exact .pure _

/-- The beginning of a text is a text. -/
theorem perform_splitName (delimiter name : String) : ∃ r : Except Fault (String × String), ∀ s o,
      (splitName delimiter (.ofText name)).perform s o =
        (r.map fun part => (.ofText part.1, part.2), o) := by
  have hwithin : ∀ s o, (within (.ofText delimiter) (.ofText name)).perform s o =
      (.ok (Report.occursIn delimiter.toList name.toList), o) := fun _ _ => rfl
  unfold splitName
  cases hfound : Report.occursIn delimiter.toList name.toList with
  | false =>
    refine ⟨.ok (name, ""), fun s o => ?_⟩
    rw [perform_bind, hwithin, hfound]
    rfl
  | true =>
    cases hempty : delimiter.isEmpty with
    | true =>
      refine ⟨.error .emptySeparator, fun s o => ?_⟩
      rw [perform_bind, hwithin, hfound]
      simp only [if_true]
      rfl
    | false =>
      cases hbreak : Text.breakOn? delimiter.toList name.toList with
      | none =>
        refine ⟨.ok (name, ""), fun s o => ?_⟩
        rw [perform_bind, hwithin, hfound]
        simp only [Value.ofText, hbreak, Bool.false_eq_true, if_false, if_true]
        rfl
      | some parts =>
        refine ⟨.ok (String.ofList parts.1, String.ofList parts.2), fun s o => ?_⟩
        rw [perform_bind, hwithin, hfound]
        simp only [Value.ofText, hbreak, Bool.false_eq_true, if_false, if_true]
        rfl

mutual

/-- Finding the template with a name only records messages. -/
theorem quiet_source (name : String) : ∀ l : Loader, Quiet (source (.ofText name) l)
  | .absent => .fail _
  | .dict templates => by
    refine (quiet_named? name).bind fun tree? => ?_
    cases tree? with
    | some tree => exact .pure _
    | none => exact (Quiet.textOf name).bind fun _ => (Quiet.shownOf name).bind fun _ =>
        (Quiet.note _).bind fun _ => .fail _
  | .function templates => by
    refine (quiet_named? name).bind fun found? => ?_
    cases found? with
    | some found => exact quiet_unpack found
    | none => exact (Quiet.shownOf name).bind fun _ => (Quiet.note _).bind fun _ =>
        (Quiet.textOf name).bind fun _ => .fail _
  | .choice loaders => quiet_firstSource name loaders.length loaders
  | .byPrefix loaders delimiter => by
    obtain ⟨r, hsplit⟩ := perform_splitName delimiter name
    cases r with
    | error e => exact ⟨.error e, #[], fun s o => by
        rw [source, perform_bind, hsplit, Array.append_empty]; rfl⟩
    | ok part =>
      obtain ⟨result, ms, hsource⟩ :=
        quiet_prefixSource name part.1 part.2 (sortedNames loaders) loaders
      refine ⟨result, ms, fun s o => ?_⟩
      rw [source, perform_bind, hsplit]
      exact hsource s o

theorem quiet_firstSource (name : String) (count : Nat) :
    ∀ loaders : List Loader, Quiet (firstSource (.ofText name) count loaders)
  | [] => (Quiet.textOf name).bind fun _ => .fail _
  | l :: rest => (quiet_source name l).recover isMiss fun _ => quiet_firstSource name count rest

theorem quiet_prefixSource (name start rest : String) (available : List String) :
    ∀ loaders : List (String × Loader),
      Quiet (prefixSource (.ofText name) start rest available loaders)
  | [] => (Quiet.textOf name).bind fun _ => .fail _
  | (_, .absent) :: more => quiet_prefixSource name start rest available more
  | (s, l) :: more => by
    have hmore := quiet_prefixSource name start rest available more
    have hsource := quiet_source rest l
    cases l
    case absent => exact hmore
    all_goals
      show Quiet (if s = start then _ else _)
      split
      · exact hsource
      · exact hmore

end

end Loader

/-! ## Loaded templates -/

/-- The activation that the functions of a loaded module share, when the first of them has the given
reference. -/
def Script.Module.activation (m : Module) (q : Ref) : Activation where
  owned := m.functions.map (·.name)
  vars := ofList ((functionValues q m.functions).map fun f => (f.1, .value f.2))

/-- A template that was compiled from a tree and loaded into a state: its functions stand there from
`q` on, the root first, and share the activation `r`. -/
structure Template.Loaded (t : Template) (tree : Node) (q r : Ref) (w : World) : Prop where
  root : ∃ pos items f p, tree = .root pos items ∧ Gives (rootFunction items) {} f p ∧
    t.root = .function q ∧ w.functions.get? q = some (.closure (f.closure r))
  block {b v} : t.blocks.find? b = some v → ∃ body f p p' k, tree.definitions.find? b = some body ∧
      Gives (blockFunction (.constant (.str b)) body) p f p' ∧
      (SettledByRoot tree → IsDiscreetEntry f) ∧ q < k ∧ v = .function k ∧
      w.functions.get? k = some (.closure (f.closure r))
  complete {b body} : tree.definitions.find? b = some body → ∃ v, t.blocks.find? b = some v
  activation : ∃ a, w.activations.get? r = some a ∧ a.outer = none ∧
    ∀ b, (.blockName b ∈ a.owned ↔ ∃ v, t.blocks.find? b = some v) ∧
      ∀ v, t.blocks.find? b = some v → a.vars.find? (.blockName b) = some (.value v)
  keys : t.blocks.keys.Nodup

namespace Template.Loaded

variable {t : Template} {tree : Node} {q r : Ref} {w u : World}

/-- A loaded template stays loaded while its functions and its activation stay. -/
theorem mono (h : t.Loaded tree q r w) (hf : Extends w.functions u.functions)
    (ha : u.activations.get? r = w.activations.get? r) : t.Loaded tree q r u where
  root := by
    obtain ⟨pos, items, f, p, htree, hgives, hroot, hq⟩ := h.root
    exact ⟨pos, items, f, p, htree, hgives, hroot, (hf.2 q (Store.get?_eq_some_lt hq)).trans hq⟩
  block hb := by
    obtain ⟨body, f, p, p', k, hbody, hgives, hd, hlt, hv, hk⟩ := h.block hb
    exact ⟨body, f, p, p', k, hbody, hgives, hd, hlt, hv,
      (hf.2 k (Store.get?_eq_some_lt hk)).trans hk⟩
  complete := h.complete
  activation := by
    obtain ⟨a, hr, houter, hown⟩ := h.activation
    exact ⟨a, ha.trans hr, houter, hown⟩
  keys := h.keys

theorem of_extends (h : t.Loaded tree q r w) (hf : Extends w.functions u.functions)
    (ha : Extends w.activations u.activations) : t.Loaded tree q r u := by
  obtain ⟨a, hr, -⟩ := h.activation
  exact h.mono hf (ha.2 r (Store.get?_eq_some_lt hr))

end Template.Loaded

/-- The functions of a compiled tree make up a unit, in the order of the definitions. -/
theorem Compile.Functions.ofFunctions_eq_ok {fs} (h : Functions tree fs) (q : Ref) :
    ∃ entry : String → Value, CompiledUnit.ofFunctions
        (Table.ofList ((functionValues q fs).map fun f => (f.1.text, f.2))) tree.definitions.keys =
          .ok (.listed (.function q) tree.definitions.keys entry) ∧
      ∀ b ∈ tree.definitions.keys, ∃ (i : Nat) (f : Script.Function), fs[i]? = some f ∧
        f.name = .blockName b ∧ entry b = .function (q + i) := by
  have htext {i : Nat} {f : Script.Function} (hf : fs[i]? = some f) :
      (Table.ofList ((functionValues q fs).map fun f => (f.1.text, f.2))).find? f.name.text =
        some (.function (q + i)) :=
    h.find?_functionValues Script.Ident.text id h.name_eq_of_text_eq hf
  have hdefined {b : String} (hb : b ∈ tree.definitions.keys) :
      ∃ (i : Nat) (f : Script.Function), fs[i]? = some f ∧ f.name = .blockName b ∧
        (Table.ofList ((functionValues q fs).map fun f => (f.1.text, f.2))).find? ("b_" ++ b) =
          some (.function (q + i)) := by
    obtain ⟨body, hbody⟩ := Table.exists_findIn_of_mem hb
    obtain ⟨i, f, hf, hname⟩ := h.exists_of_find? hbody
    have hvalue := htext hf
    rw [hname] at hvalue
    exact ⟨i, f, hf, hname, hvalue⟩
  obtain ⟨root, hzero, hroot⟩ := h.rootName
  have hrootValue := htext hzero
  rw [hroot] at hrootValue
  obtain ⟨entry, hunit, hentry⟩ := CompiledUnit.ofFunctions_eq_ok hrootValue fun b hb => by
    obtain ⟨i, f, -, -, hvalue⟩ := hdefined hb
    exact ⟨_, hvalue⟩
  refine ⟨entry, hunit, fun b hb => ?_⟩
  obtain ⟨i, f, hf, hname, hvalue⟩ := hdefined hb
  exact ⟨i, f, hf, hname, Option.some.inj ((hentry b hb).symm.trans hvalue)⟩

/-- A compiled template whose functions stand in a state is loaded there. -/
theorem Template.loaded_of_functions {q r u} (h : Compile.Functions tree m.functions)
    (hfunctions : ∀ (i : Nat) (f : Script.Function), m.functions[i]? = some f →
      u.functions.get? (q + i) = some (.closure (f.closure r)))
    (hactivation : u.activations.get? r = some (m.activation q)) : ∃ unit, CompiledUnit.ofFunctions
        (Table.ofList ((functionValues q m.functions).map fun f => (f.1.text, f.2)))
        tree.definitions.keys = .ok unit ∧
      ∀ name? file?, ({ name?, file?, unit } : Template).Loaded tree q r u := by
  obtain ⟨pos, items, root, p, htree, hroot, hzero⟩ := h.root
  obtain ⟨entry, hunit, hentry⟩ := h.ofFunctions_eq_ok q
  have hkeys : tree.definitions.keys.Nodup := Table.nodup_keys_ofList _
  have hblocks := CompiledUnit.find?_blocks_listed (Value.function q) entry hkeys
  have hfind {b : String} {v : Value} (hv : (CompiledUnit.listed (.function q)
      tree.definitions.keys entry).blocks.find? b = some v) :
      ∃ (i : Nat) (f : Script.Function), m.functions[i]? = some f ∧ f.name = .blockName b ∧
        v = .function (q + i) := by
    rw [hblocks] at hv
    split at hv
    · rename_i hb
      cases hv
      exact hentry b hb
    · cases hv
  refine ⟨_, hunit, fun name? file? => ?_⟩
  exact
    { root := by
        refine ⟨pos, items, root, p, htree, hroot, ?_, hfunctions 0 root hzero⟩
        have hrootEntry := CompiledUnit.entries_listed (Value.function q) entry hkeys
        show (Table.findIn "root" _).getD Value.none = _
        rw [hrootEntry]
        rfl
      block := fun {b v} hv => by
        obtain ⟨i, f, hf, hname, rfl⟩ := hfind hv
        obtain ⟨body, p, p', hbody, hgives, hdiscreet⟩ := h.block hf hname
        refine ⟨body, f, p, p', q + i, hbody, hgives, hdiscreet, ?_, rfl, hfunctions i f hf⟩
        cases i with
        | zero =>
          obtain ⟨root, hroot, hrootName⟩ := h.rootName
          cases hroot.symm.trans hf
          cases hrootName.symm.trans hname
        | succ i => exact Nat.lt_add_of_pos_right (Nat.succ_pos i)
      complete := fun {b body} hbody => by
        have hb : b ∈ tree.definitions.keys :=
          List.mem_map_of_mem ((Table.findIn_eq_some_iff (Table.nodup_keys_ofList _)).1 hbody)
        exact ⟨entry b, (hblocks b).trans (if_pos hb)⟩
      activation := by
        refine ⟨_, hactivation, rfl, fun b => ⟨⟨fun hb => ?_, fun hex => ?_⟩, fun v hv => ?_⟩⟩
        · change .blockName b ∈ m.functions.map (·.name) at hb
          simp only [h.names, List.mem_cons, reduceCtorEq, List.mem_map,
            Script.Ident.blockName.injEq, exists_eq_right, false_or] at hb
          exact ⟨entry b, (hblocks b).trans (if_pos hb)⟩
        · obtain ⟨v, hv⟩ := hex
          obtain ⟨i, f, hf, hname, rfl⟩ := hfind hv
          exact hname ▸ List.mem_map_of_mem (List.mem_of_getElem? hf)
        · obtain ⟨i, f, hf, hname, rfl⟩ := hfind hv
          have hvar := h.find?_functionValues (q := q) id Cell.value (fun _ _ h => h) hf
          rw [id, hname] at hvar
          exact hvar
      keys := Table.nodup_keys_ofList _ }

/-! ## Loading a template -/

/-- The state after a module was loaded and made a template. -/
def World.load (w : World) (m : Module) (t : Template) (ms : Array String) : World :=
  { w with
    messages := w.messages ++ ms
    functions := w.functions.append
      (m.functions.map fun f => .closure (f.closure w.activations.size))
    activations := w.activations.push (m.activation w.functions.size)
    templates := w.templates.push t }

/-- The state with the functions of a module. -/
abbrev World.place (w : World) (m : Module) : World :=
  { w with
    functions := w.functions.append
      (m.functions.map fun f => .closure (f.closure w.activations.size))
    activations := w.activations.push (m.activation w.functions.size) }

theorem World.get?_place (i : Nat) (f : Script.Function) (hf : m.functions[i]? = some f) :
    (w.place m).functions.get? (w.functions.size + i) =
      some (.closure (f.closure w.activations.size)) := by
  rw [w.functions.get?_append_add, List.getElem?_map, hf]
  rfl

/-- The blocks of a tree are named by texts. -/
def Node.BlocksNamed (tree : Node) : Prop :=
  ∀ d ∈ tree.blocks, d.1.textName?.isSome

instance (tree : Node) : Decidable tree.BlocksNamed :=
  inferInstanceAs (Decidable (∀ d ∈ tree.blocks, d.1.textName?.isSome))

/-- A template as a loader has it. -/
structure Source where
  name : String
  tree : Node
  file? : Option String

/-- The loader finds a template under its name, the template compiles, and its blocks are named by
texts. -/
structure Source.Available (source : Source) (loader : Loader) : Prop where
  found : ((loader.source (.ofText source.name)).perform {} {}).1 = .ok (source.tree, source.file?)
  compiles : ∃ m c, ({} : Compiler).compile source.tree false (some source.name) source.file? =
    (.ok m, c)
  named : ∀ d ∈ source.tree.blocks, d.1.textName?.isSome

namespace Eval

/-- Loading a compiled tree whose functions make up a unit. -/
theorem outcome_loadUnit {name? file? c unit}
    (hcompile : ({} : Compiler).compile tree false name? file? = (.ok m, c))
    (hunit : CompiledUnit.ofFunctions (ofList ((functionValues w.functions.size m.functions).map
      fun f => (f.1.text, f.2))) c.blockTexts = .ok unit) :
    ∃ message, (loadUnit tree name? file?).outcome w =
      (.ok unit, { w.place m with messages := w.messages.push message }) := by
  unfold loadUnit
  simp only [hcompile, ofExcept, pure_bind]
  have hload : (loadModule m).outcome w =
      (.ok (ofList ((functionValues w.functions.size m.functions).map fun f => (f.1.text, f.2))),
        w.place m) := rfl
  rw [outcome_bind_of_ok hload, hunit]
  exact ⟨_, rfl⟩

/-- Compiling and loading a tree makes a loaded template. -/
theorem outcome_loadTemplate {name? file? c}
    (hcompile : ({} : Compiler).compile tree false name? file? = (.ok m, c))
    (hnames : ∀ d ∈ tree.blocks, d.1.textName?.isSome) (w : World) :
    ∃ t message, (loadTemplate tree name? file?).outcome w =
        (.ok w.templates.size, w.load m t #[message]) ∧ t.name? = name? ∧
      t.Loaded tree w.functions.size w.activations.size (w.load m t #[message]) := by
  have hgives := Compile.gives_of_compileModule (Compiler.compileModule_of_compile hcompile)
  obtain ⟨hfunctions, htexts⟩ := Compile.Functions.of_gives hgives hnames
  -- The unit does not depend on the template that is made of it.
  obtain ⟨unit, hunit, -⟩ := Template.loaded_of_functions hfunctions
    World.get?_place (w.activations.get?_push_self _)
  obtain ⟨message, houtcome⟩ := outcome_loadUnit hcompile (htexts ▸ hunit)
  refine ⟨⟨name?, file?, unit⟩, message, ?_, rfl, ?_⟩
  · unfold loadTemplate
    rw [outcome_bind_of_ok houtcome]
    simp only [World.load, ← Array.push_eq_append]
    rfl
  · obtain ⟨unit', hunit', hloaded⟩ := Template.loaded_of_functions hfunctions
      (u := w.load m ⟨name?, file?, unit⟩ #[message]) World.get?_place
      (w.activations.get?_push_self _)
    cases hunit.symm.trans hunit'
    exact hloaded name? file?

/-- A loader that has a template loads it. -/
theorem outcome_getTemplate {source : Source} {loader} (hs : source.Available loader)
    (hloader : w.env.loader? = some loader) (eager : Bool) :
    ∃ m t ms, (getTemplate (.ofText source.name) eager).outcome w =
        (.ok w.templates.size, w.load m t ms) ∧ t.name? = some source.name ∧
      t.Loaded source.tree w.functions.size w.activations.size (w.load m t ms) := by
  obtain ⟨m, c, hcompile⟩ := hs.compiles
  obtain ⟨result, ms, hquiet⟩ := Loader.quiet_source source.name loader
  have hfound := hs.found
  rw [hquiet] at hfound
  obtain rfl : result = .ok (source.tree, source.file?) := hfound
  have hsource : (liftM (loader.source (.ofText source.name)) : Eval (Node × Option String)).outcome
      w = (.ok (source.tree, source.file?), { w with messages := w.messages ++ ms }) := by
    rw [outcome_lift, hquiet]
    rfl
  have hresolved : ∃ resolved, (getTemplate (.ofText source.name) eager).outcome w =
      (loadTemplate source.tree (some source.name) source.file?).outcome
        { w with messages := (w.messages ++ ms).push resolved } := by
    unfold getTemplate
    rw [outcome_get_bind, hloader]
    rw [outcome_bind_of_ok hsource]
    exact ⟨_, rfl⟩
  obtain ⟨resolved, hresolved⟩ := hresolved
  obtain ⟨t, message, houtcome, hname, hloaded⟩ := outcome_loadTemplate hcompile hs.named
    { w with messages := (w.messages ++ ms).push resolved }
  have hload :
      ({ w with messages := (w.messages ++ ms).push resolved } : World).load m t #[message] =
      w.load m t ((ms.push resolved).push message) := by
    simp only [World.load, ← Array.push_eq_append, Array.append_push]
  rw [hload] at houtcome hloaded
  exact ⟨m, t, _, hresolved.trans houtcome, hname, hloaded⟩

/-- An attempt to load a template: it has failed without a change to more than objects, or it has
made a loaded template. -/
inductive Attempted (w : World) : Except Halt Ref × World → Prop where
  | failed (e : Halt) (o : Objects) : Attempted w (.error e, { w with toObjects := o })
  | loaded {tree m t o message} : tree.BlocksNamed → Functions tree m.functions →
    t.Loaded tree w.functions.size w.activations.size
      (({ w with toObjects := o } : World).load m t #[message]) →
    Attempted w (.ok w.templates.size, ({ w with toObjects := o } : World).load m t #[message])

theorem attempted_loadTemplate (hnames : tree.BlocksNamed) (name? file? : Option String)
    (w : World) : Attempted w ((loadTemplate tree name? file?).outcome w) := by
  rcases hcompile : ({} : Compiler).compile tree false name? file? with ⟨e | m, c⟩
  · have hfails : (loadTemplate tree name? file?).outcome w = (.error (.fault e), w) := by
      unfold loadTemplate loadUnit
      rw [hcompile]
      rfl
    rw [hfails]
    exact .failed _ w.toObjects
  · obtain ⟨t, message, houtcome, -, hloaded⟩ := outcome_loadTemplate hcompile hnames w
    have hgives := gives_of_compileModule (Compiler.compileModule_of_compile hcompile)
    rw [houtcome]
    exact .loaded hnames (Functions.of_gives hgives hnames).1 hloaded

/-- An operation before the attempt changes objects only. -/
theorem attempted_bind {x : Operation α} {f : α → Eval Ref}
    (hf : ∀ a o, x.perform w.toSurroundings w.toObjects = (.ok a, o) →
      Attempted { w with toObjects := o } ((f a).outcome { w with toObjects := o })) :
    Attempted w ((liftM x >>= f).outcome w) := by
  rw [outcome_bind, outcome_lift]
  rcases hx : x.perform w.toSurroundings w.toObjects with ⟨e | a, o⟩
  · exact .failed _ o
  · have h := hf a o hx
    revert h
    show Attempted _ ((f a).outcome { w with toObjects := o }) →
      Attempted _ ((f a).outcome { w with toObjects := o })
    generalize (f a).outcome { w with toObjects := o } = result
    rintro (⟨e, o'⟩ | ⟨hnames, hfunctions, hloaded⟩)
    · exact .failed e o'
    · exact .loaded hnames hfunctions hloaded

/-- Looking for a template by name, where the blocks of all trees at hand are named by texts. -/
theorem attempted_getTemplate
    (hnames : ∀ loader, w.env.loader? = some loader → ∀ tree ∈ loader.trees, tree.BlocksNamed)
    (name : Value) (eager : Bool) : Attempted w ((getTemplate name eager).outcome w) := by
  unfold getTemplate
  rw [outcome_get_bind]
  cases hloader : w.env.loader? with
  | none => exact attempted_bind fun _ o _ => .failed _ o
  | some loader =>
    refine attempted_bind fun (tree, file?) o hfound => attempted_bind fun shown o' _ => ?_
    refine attempted_bind fun _ o'' _ => ?_
    obtain ⟨-, htree⟩ := ((Loader.guards_source name loader).grown _ _).2 _
      (congrArg Prod.fst hfound)
    exact attempted_loadTemplate (hnames loader hloader tree htree) _ file? _

end Eval

end Stencil
