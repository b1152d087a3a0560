import Mathlib.Data.List.Forall2
import Stencil.Proofs.Handover
import Stencil.Proofs.Lineage
import Stencil.Proofs.Override
import Stencil.Proofs.Reachable

/-!
# Renders of inheriting templates

A template that inherits by name and has nothing but blocks and text besides hands over to its
parent, and so does the parent, until a template is reached that does not inherit (`Descends`). Each
hand-over adds the blocks of one template behind those that are known already
(`Template.Loaded.outcome_child`). So the render of the first template is a run of the last root, in
which every block is looked up in the line of templates (`render_of_descends`).
-/

namespace Stencil

open Script Compile Engine List Store World

variable {at_ namePos : Position} {items : List Node}

variable {w u : World} {r c f out home q : Ref} {t : Template} {loader : Loader}

/-! ## Lines of templates -/

/-- Blocks and texts. -/
def Node.isIdle : Node → Bool
  | .text .. | .block .. => true
  | _ => false

/-- A tree that inherits by name, with blocks and texts besides, from a template that inherits in
the same way, and so on, until a template does not inherit. The templates above the first one are
listed. -/
inductive Descends (loader : Loader) : Node → List Source → Prop where
  | base {pos items} :
    (∀ n ∈ Node.forest items, isInherit n = false) → Descends loader (.root pos items) []
  | child {pos at_ namePos items parent rest} :
    (∀ n ∈ items, n.isIdle = true) → parent.Available loader → Descends loader parent.tree rest →
    Descends loader
      (.root pos (.inherit at_ (.literal namePos (.str parent.name)) :: items)) (parent :: rest)

/-! ## Code without effect -/

namespace Compile

/-- The statements of blocks and texts in a root. -/
inductive IsIdle : Stmt → Prop where
  | text (s : String) : IsIdle (.emit .output (.text s))
  | block (name : Node.Content) : IsIdle (blockReference ⟨true, .output⟩ name)

theorem Builds.isIdle {site} (hsite : site = ⟨true, .output⟩) {scope scope' n p p' ss}
    (h : Builds site scope n p ss scope' p') (hn : n.isIdle = true) :
    p' = p ∧ ∀ s ∈ ss, IsIdle s := by
  subst hsite
  cases h <;> try cases hn
  case text =>
    refine ⟨rfl, fun s hs => ?_⟩
    split at hs
    · cases hs
    · cases mem_singleton.1 hs
      exact .text _
  case block => exact ⟨rfl, forall_mem_singleton.2 (.block _)⟩

theorem BuildsAll.isIdle {site} (hsite : site = ⟨true, .output⟩) :
    ∀ {items : List Node} {scope scope' : Scope Ident} {p p' : Progress} {ss : List Stmt},
    BuildsAll site scope items p ss scope' p' → (∀ n ∈ items, n.isIdle = true) →
    p' = p ∧ ∀ s ∈ ss, IsIdle s
  | [], _, _, _, _, _, h, _ => by
    cases h
    exact ⟨rfl, forall_mem_nil _⟩
  | n :: rest, _, _, _, _, _, h, hidle => by
    obtain ⟨hn, hidle⟩ := forall_mem_cons.1 hidle
    cases h with
    | cons hfirst hrest =>
      obtain ⟨rfl, hss⟩ := hfirst.isIdle hsite hn
      obtain ⟨rfl, hss'⟩ := hrest.isIdle hsite hidle
      exact ⟨rfl, fun s hs => (mem_append.1 hs).elim (hss s) (hss' s)⟩

/-- The code of a template that inherits and has blocks and texts besides. -/
theorem BuildsAll.of_child {name scope p ss}
    (h : BuildsAll ⟨true, .output⟩ {} (.inherit at_ (.literal namePos (.str name)) :: items) {} ss
      scope p)
    (hidle : ∀ n ∈ items, n.isIdle = true) :
    p.child = true ∧ ∃ rest, ss = inheritance (.const (.str name)) (.temp 1) ++ rest ∧
      ∀ s ∈ rest, IsIdle s := by
  cases h with
  | cons hfirst hrest =>
    cases hfirst with
    | inherit _ hemits =>
      cases hemits
      obtain ⟨rfl, hss⟩ := hrest.isIdle rfl hidle
      exact ⟨rfl, _, rfl, hss⟩

end Compile

variable {tree : Node} {sources : List Source}

/-- It is settled in every root of a line whether the template inherits. -/
theorem Descends.settledByRoot (h : Descends loader tree sources) : SettledByRoot tree := by
  intro pos items fn p htree hgives
  obtain ⟨ss, scope, hbuilds, -⟩ := gives_rootFunction hgives
  cases h with
  | base hnone =>
    cases htree
    exact .inr hnone
  | child hidle _ _ =>
    cases htree
    exact .inl (hbuilds.of_child hidle).1

theorem Descends.settledByRoot_of_mem (h : Descends loader tree sources) :
    ∀ s ∈ sources, SettledByRoot s.tree := by
  induction h with
  | base _ => exact forall_mem_nil _
  | child _ _ hparent ih => exact forall_mem_cons.2 ⟨hparent.settledByRoot, ih⟩

namespace Script

variable {env : Value} {fuel limit : Nat} {parent : Ref} {a : Activation}

/-- A root finds out whether a parent is known. -/
theorem outcome_eval_parent_is_none {call} (parent? : Option Ref)
    (ha : w.activations.get? r = some a)
    (hat : a.AtWork env c f out (parent?.elim .none .template)) :
    (eval call r (.compare (.name .parentTemplate) [(.is, .const .null)])).outcome w =
      (.ok (.value (.bool parent?.isNone)), w) := by
  rw [eval, eval, Eval.outcome_bind_of_ok (hat.outcome_read ha rfl)]
  cases parent? <;> rfl

/-- A root does nothing where a block is referred to, once a parent is known. -/
theorem outcome_exec_reference_of_parent {call} (ha : w.activations.get? r = some a)
    (hat : a.AtWork env c f out (.template parent)) (name : Node.Content) :
    (exec call limit r (blockReference ⟨true, .output⟩ name)).outcome w = (.ok none, w) :=
  outcome_exec_branch (outcome_eval_parent_is_none (some parent) ha hat)

/-- A block or a text leaves no more than text in the buffer, once a parent is known. -/
theorem outcome_exec_idle (ha : w.activations.get? r = some a)
    (hat : a.AtWork env c f out (.template parent)) {s} (hs : IsIdle s) {base}
    (hbase : Extends base w.lists) (hout : base.size ≤ out) :
    ∃ lists, (exec (call (fuel + 1)) limit r s).outcome w = (.ok none, { w with lists }) ∧
      Extends base lists := by
  cases hs with
  | text s =>
    refine ⟨_, outcome_exec_emit (hat.outcome_read ha rfl) rfl, ?_⟩
    exact hbase.modify hout _
  | block name => exact ⟨w.lists, outcome_exec_reference_of_parent ha hat name, hbase⟩

theorem outcome_execAll_idle : ∀ {ss : List Stmt} {w : World}, w.activations.get? r = some a →
    a.AtWork env c f out (.template parent) → (∀ s ∈ ss, IsIdle s) →
    ∀ {base : Store (Array Value)}, Extends base w.lists → base.size ≤ out →
    ∃ lists, (execAll (call (fuel + 1)) limit r ss).outcome w = (.ok none, { w with lists }) ∧
      Extends base lists
  | [], w, _, _, _, _, hbase, _ => ⟨w.lists, rfl, hbase⟩
  | s :: rest, w, ha, hat, hss, _, hbase, hout => by
    obtain ⟨hs, hrest⟩ := forall_mem_cons.1 hss
    obtain ⟨lists, hfirst, hbase⟩ := outcome_exec_idle ha hat hs hbase hout
    obtain ⟨lists', hothers, hbase⟩ := outcome_execAll_idle (w := { w with lists }) ha hat hrest
      hbase hout
    exact ⟨lists', (outcome_execAll_cons hfirst).trans hothers, hbase⟩

end Script

/-! ## What a hand-over leaves alone -/

/-- The state `u` comes from `v` by hand-overs with the context `c`: templates were loaded, roots
were entered and wrote to buffers of their own, and the chains of the context have changed. -/
structure World.Continues (v : World) (c : Ref) (u : World) : Prop where
  lists : Extends v.lists u.lists
  functions : Extends v.functions u.functions
  templates : Extends v.templates u.templates
  activations : Extends v.activations u.activations
  rest : ∃ messages blocks, u = { v with
    lists := u.lists, messages, functions := u.functions, templates := u.templates
    activations := u.activations
    contexts := v.contexts.set c { v.context c with blocks } }

namespace World.Continues

variable {v : World}

theorem refl (v : World) (hc : c < v.contexts.size) : v.Continues c v where
  lists := .refl _
  functions := .refl _
  templates := .refl _
  activations := .refl _
  rest := ⟨v.messages, (v.context c).blocks, by rw [World.set_context hc]⟩

theorem trans {x} (h : v.Continues c u) (h' : u.Continues c x) (hc : c < v.contexts.size) :
    v.Continues c x where
  lists := h.lists.trans h'.lists
  functions := h.functions.trans h'.functions
  templates := h.templates.trans h'.templates
  activations := h.activations.trans h'.activations
  rest := by
    obtain ⟨messages, blocks, hu⟩ := h.rest
    obtain ⟨messages', blocks', hx⟩ := h'.rest
    have hcontexts : u.contexts = v.contexts.set c { v.context c with blocks } := by rw [hu]
    have hcontext : u.context c = { v.context c with blocks } := by
      rw [hu]
      exact World.context_set hc _
    refine ⟨messages', blocks', hx.trans ?_⟩
    rw [hcontexts, hcontext, Store.set_set, hu]

theorem env (h : v.Continues c u) : u.env = v.env := by
  obtain ⟨_, _, hu⟩ := h.rest
  rw [hu]

theorem size_contexts (h : v.Continues c u) : u.contexts.size = v.contexts.size := by
  obtain ⟨_, _, hu⟩ := h.rest
  rw [hu]
  exact size_set ..

end World.Continues

/-- No function was defined with the context `c` at hand, and none renders an overridden block with
it. -/
structure World.Unshared (w : World) (c : Ref) : Prop where
  closure {q o g} : w.functions.get? q = some (.closure g) → g.outer = some o →
    ¬ Inside c w.activations o
  super {q env name next} : w.functions.get? q ≠ some (.superBlock env c name (some next))

namespace World.Unshared

/-- Functions stay apart from the context while older activations keep to theirs. -/
theorem mono (h : w.Unshared c) (hs : w.Scoped) (hf : u.functions = w.functions)
    (hin : ∀ o < w.activations.size, Inside c u.activations o → Inside c w.activations o) :
    u.Unshared c where
  closure hq ho hinside := by
    rw [hf] at hq
    exact h.closure hq ho (hin _ (hs.closure hq ho) hinside)
  super := by
    rw [hf]
    exact h.super

end World.Unshared

theorem inside_adopt {entries} (hn : Nested w.activations) (k : Nat) (d o : Ref) :
    Inside c (w.adopt r d (.temp k) entries).activations o ↔ Inside c w.activations o := by
  rw [adopt_activations]
  generalize w.activations = acts at hn
  induction entries generalizing acts with
  | nil => exact Iff.rfl
  | cons e rest ih =>
    have hcell : ¬ (Cell.value (.ofText e.1)).Reaches c := fun hreach => hreach
    exact (ih _ (Nested.assign hn r (.temp k) _)).trans
      (inside_assign hn hcell (fun _ => Ident.noConfusion) o)

namespace World.Unshared

/-- The root of a template gets hold of the context, but defines no function when it starts. -/
theorem startRoot {g env d} (h : w.Unshared c) (hs : w.Scoped)
    (hn : Nested (w.startRoot g env d f).activations) : (w.startRoot g env d f).Unshared c := by
  have hext : Extends w.activations (w.startRoot g env d f).activations :=
    (((Extends.refl _).push _).modify (Nat.le_refl _) _).modify (Nat.le_refl _) _
  exact h.mono hs rfl fun o ho => (inside_extends hs.activation hn hext ho).1

/-- The functions of a parent have no context at hand. -/
theorem inherit {m ms d k} (h : w.Unshared c) (hs : w.Scoped) :
    (w.inherit m t ms r d (.temp k)).Unshared c := by
  have hn : Nested (w.activations.push (m.activation w.functions.size)) :=
    (hs.pushActivation fun o ho => by cases ho).activation
  have hinside (o : Ref) : Inside c (w.inherit m t ms r d (.temp k)).activations o ↔
      Inside c (w.activations.push (m.activation w.functions.size)) o := by
    have hcell : ¬ (Cell.value (.template w.templates.size)).Reaches c := fun hreach => hreach
    refine (inside_adopt (Nested.assign hn r _ _) k d o).trans ?_
    exact inside_assign hn hcell (fun _ => Ident.noConfusion) o
  constructor
  · intro q o g hq ho hin
    rw [hinside] at hin
    rcases get?_append_eq_some hq with hq | hg
    · have hext : Extends w.activations (w.activations.push (m.activation w.functions.size)) :=
        (Extends.refl _).push _
      exact h.closure hq ho ((inside_extends hs.activation hn hext (hs.closure hq ho)).1 hin)
    · obtain ⟨fn, -, hfn⟩ := mem_map.1 hg
      cases hfn
      cases ho
      exact not_inside_push hn rfl (fun _ _ => m.not_reaches_of_find?) hin
  · intro q env name next hq
    rcases get?_append_eq_some hq with hq | hg
    · exact h.super hq
    · obtain ⟨fn, -, hfn⟩ := mem_map.1 hg
      cases hfn

end World.Unshared

/-! ## One hand-over -/

/-- A template that inherits by name and has nothing but blocks and texts besides hands over to its
parent. The blocks of the parent stand behind those that the context had. -/
theorem Template.Loaded.outcome_child {pos} {parent : Source}
    (h : t.Loaded (.root pos (.inherit at_ (.literal namePos (.str parent.name)) :: items)) q home
      w)
    (hidle : ∀ n ∈ items, n.isIdle = true) (hparent : parent.Available loader)
    (hloader : w.env.loader? = some loader) (hw : w.Supplied) (hc : c < w.contexts.size)
    (hchain : ∀ b, t.chain b ⊆ (w.context c).chain b) (fuel : Nat) (f : Ref) :
    ∃ (t' : Template) (u : World), ((call (fuel + 2)).enter t.root .environment c f).outcome w =
        ((call (fuel + 1)).enter t'.root .environment c f).outcome u ∧
      t'.Loaded parent.tree w.functions.size (w.activations.size + 1) u ∧ u.Supplied ∧
      w.Continues c u ∧ (∀ b, (u.context c).chain b = (w.context c).chain b ++ t'.chain b) ∧
      (w.Unshared c → u.Unshared c) := by
  obtain ⟨ss, scope, p, hbuilds, hroot, hq, henter⟩ := h.outcome_enterRoot
  obtain ⟨hchild, rest, hss, hrest⟩ := hbuilds.of_child hidle
  let g : Closure := (rootOf ss p.child).closure home
  let start : World := w.startRoot g .environment c f
  have hentry : w.Enterable c (.function q) :=
    ⟨hc, hroot ▸ (h.opens hw.nesting.activation (.inl rfl)).mono hw.nesting hchain
      (Extends.refl _) fun _ _ _ => rfl⟩
  have hkey : .temp 1 ∈ g.owned := mem_owned_rootOf (.inr (by
    simp [hss, inheritance, assignedInBody, Stmt.assigned, Target.assigned]))
  have hbusy : Busy _ _ _ _ start := hw.busy_startRoot hq hentry rfl .environment f
  obtain ⟨a, ha, hown, hat⟩ := w.atWork_startRoot .environment c f rfl rfl
    fun id hid => mem_owned_rootOf (.inl hid)
  obtain ⟨m, t', ms, hinherit, -, hloaded, hbusy'⟩ := hbusy.outcome_inheritance ha hat
    (hown ▸ hkey) hparent hloader fuel (fuel + 1)
  obtain ⟨a', ha', -, hat'⟩ := atWork_inherit m t' ms 1 ha hat
  obtain ⟨lists, hidleRun, hlists⟩ := outcome_execAll_idle ha' hat'
    hrest ((Extends.refl _).push _) (Nat.le_refl _)
  let done : World := start.inherit m t' ms w.activations.size c (.temp 1)
  refine ⟨t', { done with lists }, ?_, ?_, ?_, ?_, ?_, ?_⟩
  · have hcode : (execAll (call (fuel + 1)) (fuel + 1) w.activations.size
        (ss ++ delegation p.child ++ [.ret (.joined .output)])).outcome start =
          (execAll (call (fuel + 1)) (fuel + 1) w.activations.size
            (delegation true ++ [.ret (.joined .output)])).outcome { done with lists } := by
      rw [hss, hchild, append_assoc, append_assoc, outcome_execAll_append hinherit,
        outcome_execAll_append hidleRun]
    have hhand := outcome_delegation (fuel + 1) (call (fuel + 1))
      (w := { done with lists }) ha' hat' [.ret (.joined .output)]
    have htemplate : ({ done with lists } : World).template start.templates.size = t' :=
      start.template_inherit m t' ms w.activations.size c (.temp 1)
    rw [htemplate] at hhand
    exact (henter _ _ _ _ _).trans ((Eval.outcome_bind_congr hcode _).trans hhand)
  · have hsize : start.activations.size = w.activations.size + 1 := by
      simp [start, startRoot]
    have hother : start.activations.size ≠ w.activations.size := by omega
    have hmodule := hloaded.mono (u := { done with lists }) (Extends.refl _)
      (get?_inherit_of_ne (c := c) hother)
    rwa [hsize] at hmodule
  · exact hbusy'.1.congr rfl rfl rfl rfl rfl
  · exact
      { lists := hlists
        functions := (Extends.refl _).append _
        templates := (Extends.refl _).push _
        activations := activations_inherit (c := c)
          ((((Extends.refl _).push _).modify (Nat.le_refl _) _).modify (Nat.le_refl _) _)
          (Nat.le_refl _)
        rest := by
          refine ⟨done.messages, (t'.blocks.entries.foldl (fun c e => c.addBlock e.1 e.2)
            (w.context c)).blocks, ?_⟩
          rw [← Context.foldl_addBlock_eq]
          rfl }
  · exact fun b => chain_inherit (w := start) (.temp 1) hc b
  · exact fun hunshared =>
      have hstart : start.Unshared c := hunshared.startRoot hw.nesting hbusy.1.nesting.activation
      have hdone : done.Unshared c := hstart.inherit hbusy.1.nesting
      ⟨hdone.closure, hdone.super⟩

/-! ## The whole line -/

namespace Line

variable {line : List Template} {b : String}

theorem definitions_concat (line : List Template) (t : Template) (b : String) :
    definitions (line ++ [t]) b = definitions line b ++ t.chain b := by
  unfold definitions
  rw [filterMap_append]
  cases hb : t.blocks.find? b <;> simp [Template.chain, hb]

theorem chain_subset_definitions (ht : t ∈ line) : t.chain b ⊆ definitions line b := fun v hv =>
  mem_filterMap.2 ⟨t, ht, by simpa [Template.chain] using hv⟩

end Line

/-- A state in which the templates of a line are loaded from the given trees, and in which the
chains of a context hold their definitions, each of them a function of its own. -/
structure World.Hosts (w : World) (c : Ref) (line : List Template) (trees : List Node) : Prop where
  supplied : w.Supplied
  lt : c < w.contexts.size
  loaded : Forall₂ (fun t tree => ∃ q home, t.Loaded tree q home w) line trees
  chain (b : String) : (w.context c).chain b = Line.definitions line b
  nodup (b : String) : (Line.definitions line b).Nodup

/-- Such a state in which no code but that of the line has the context at hand. -/
structure World.Carries (w : World) (c : Ref) (line : List Template) (trees : List Node) : Prop
    extends w.Hosts c line trees where
  unshared : w.Unshared c

namespace World.Hosts

variable {line : List Template} {trees : List Node}

theorem exists_loaded (h : w.Hosts c line trees) (ht : t ∈ line) :
    ∃ tree ∈ trees, ∃ q home, t.Loaded tree q home w := by
  obtain ⟨hlength, hzip⟩ := forall₂_iff_zip.1 h.loaded
  rw [← map_fst_zip (Nat.le_of_eq hlength), mem_map] at ht
  obtain ⟨⟨t, tree⟩, hmem, rfl⟩ := ht
  exact ⟨tree, (of_mem_zip hmem).2, hzip hmem⟩

theorem lt_of_mem_definitions (h : w.Hosts c line trees) {b v} (hv : v ∈ Line.definitions line b) :
    ∃ k, v = .function k ∧ k < w.functions.size := by
  obtain ⟨t, ht, hfind⟩ := mem_filterMap.1 hv
  obtain ⟨tree, -, q, home, hloaded⟩ := h.exists_loaded ht
  obtain ⟨_, _, _, _, k, -, -, -, -, rfl, hk⟩ := hloaded.block hfind
  exact ⟨k, rfl, get?_eq_some_lt hk⟩

end World.Hosts

/-- The line gets longer by the parent of its last template. -/
theorem World.Carries.outcome_child {line} {trees : List Node} (h : w.Carries c line trees)
    (ht : t ∈ line) {pos} {parent : Source}
    (hloaded : t.Loaded
      (.root pos (.inherit at_ (.literal namePos (.str parent.name)) :: items)) q home w)
    (hidle : ∀ n ∈ items, n.isIdle = true) (hparent : parent.Available loader)
    (hloader : w.env.loader? = some loader) (fuel : Nat) (f : Ref) :
    ∃ (t' : Template) (q' home' : Ref) (u : World),
      ((call (fuel + 2)).enter t.root .environment c f).outcome w =
        ((call (fuel + 1)).enter t'.root .environment c f).outcome u ∧
      t'.Loaded parent.tree q' home' u ∧ w.Continues c u ∧
      u.Carries c (line ++ [t']) (trees ++ [parent.tree]) := by
  obtain ⟨t', u, houtcome, hloaded', hu, hcontinues, hchain, hunshared⟩ :=
    hloaded.outcome_child hidle hparent hloader h.supplied h.lt
      (fun b => h.chain b ▸ Line.chain_subset_definitions ht) fuel f
  refine ⟨t', _, _, u, houtcome, hloaded', hcontinues, ⟨hu, ?_, ?_, ?_, ?_⟩, hunshared h.unshared⟩
  · exact hcontinues.size_contexts ▸ h.lt
  · refine rel_append (h.loaded.imp fun t tree hold => ?_) (.cons ⟨_, _, hloaded'⟩ .nil)
    obtain ⟨q, home, hold⟩ := hold
    exact ⟨q, home, hold.of_extends hcontinues.functions hcontinues.activations⟩
  · intro b
    rw [hchain, h.chain, Line.definitions_concat]
  · intro b
    rw [Line.definitions_concat, nodup_append]
    refine ⟨h.nodup b, ?_, ?_⟩
    · unfold Template.chain
      cases t'.blocks.find? b <;> simp
    -- The functions of the parent are younger than those of the line.
    · rintro v hv _ hv' rfl
      obtain ⟨k, rfl, hk⟩ := h.lt_of_mem_definitions hv
      obtain ⟨_, _, _, _, k', -, -, -, hk', heq, -⟩ :=
        hloaded'.block (by simpa [Template.chain] using hv')
      cases heq
      exact Nat.lt_asymm hk hk'

/-- Entering the first template of a line comes to entering the last one, in a state that carries
the whole line. -/
theorem Descends.outcome_enter (h : Descends loader tree sources) :
    ∀ {w : World} {t : Template} {q home : Ref}
    {line : List Template} {trees : List Node}, w.Carries c line trees → t ∈ line →
    t.Loaded tree q home w → w.env.loader? = some loader → ∀ (fuel : Nat) (f : Ref),
    ∃ (rest : List Template) (last : Template) (pos : Position) (items : List Node) (q' home' : Ref)
      (u : World),
      ((call (fuel + sources.length + 1)).enter t.root .environment c f).outcome w =
        ((call (fuel + 1)).enter last.root .environment c f).outcome u ∧
      (t :: rest).getLast? = some last ∧ last.Loaded (.root pos items) q' home' u ∧
      (∀ n ∈ Node.forest items, isInherit n = false) ∧ w.Continues c u ∧
      u.Carries c (line ++ rest) (trees ++ sources.map (·.tree)) := by
  induction h with
  | base hnone =>
    intro w t q home line trees hw _ ht _ fuel f
    refine ⟨[], t, _, _, q, home, w, rfl, rfl, ht, hnone, .refl w hw.lt, ?_⟩
    simpa using hw
  | @child pos at_ namePos items parent rest hidle hparent _ ih =>
    intro w t q home line trees hw hmem ht hloader fuel f
    obtain ⟨t', q', home', v, hstep, ht', hv, hcarries⟩ :=
      hw.outcome_child hmem ht hidle hparent hloader (fuel + rest.length) f
    obtain ⟨ts, last, pos, items, q', home', u, hrun, hlast, hloaded, hnone, hu, hline⟩ :=
      ih hcarries (by simp) ht' (hv.env ▸ hloader) fuel f
    refine ⟨t' :: ts, last, pos, items, q', home', u, hstep.trans hrun, ?_, hloaded, hnone,
      hv.trans hu hw.lt, ?_⟩
    · rw [getLast?_cons_cons, hlast]
    · simpa using hline

/-! ## Blocks in the line -/

theorem Compile.IsDiscreetEntry.isEntry {fn} (h : IsDiscreetEntry fn) (home : Ref) :
    (fn.closure home).IsEntry where
  params := h.params
  captured := rfl
  owned := by
    show .context ∈ ownedBy fn.params fn.body
    rw [ownedBy, mem_eraseDups, h.params]
    simp [entryParams]
  body := h.body

namespace World.Carries

variable {line : List Template} {trees : List Node} {pos : Position} {items : List Node}

/-- Nothing but the definitions of the line and the last root is entered with the context. -/
theorem guarded (h : w.Carries c line trees) (hsettled : ∀ tree ∈ trees, SettledByRoot tree)
    {last : Template} (hlast : last.Loaded (.root pos items) q home w)
    (hnone : ∀ n ∈ Node.forest items, isInherit n = false) :
    Guarded c (fun v => v = last.root ∨ ∃ b, v ∈ Line.definitions line b)
      (w.context c).blocks w where
  enclosed :=
    { nesting := h.supplied.nesting
      holder := fun hr hid hreach =>
        have ⟨hcontext, hcell, _⟩ := h.supplied.holder hr hid hreach
        ⟨hcontext, hcell⟩
      captured := fun hq p hp => (h.supplied.closure hq).captured p hp c
      discreet := fun hq ho hin => (h.unshared.closure hq ho hin).elim
      entry := by
        rintro v (rfl | ⟨b, hv⟩)
        · obtain ⟨_, _, fn, p, heq, hgives, hroot, hq⟩ := hlast.root
          cases heq
          have hentry := (isDiscreetEntry_rootFunction rfl hnone hgives).1
          exact ⟨_, _, hroot, hq, hentry.isEntry _⟩
        · obtain ⟨t, ht, hfind⟩ := mem_filterMap.1 hv
          obtain ⟨tree, htree, _, _, hloaded⟩ := h.exists_loaded ht
          obtain ⟨_, fn, _, _, k, -, -, hdiscreet, -, rfl, hk⟩ := hloaded.block hfind
          exact ⟨k, _, rfl, hk, (hdiscreet (hsettled tree htree)).isEntry _⟩
      overridden := fun hq => (h.unshared.super hq).elim }
  lt := h.lt
  blocks_eq := rfl

/-- The last root finds its blocks in the line. -/
theorem outcome_resolution (h : w.Carries c line trees)
    (hsettled : ∀ tree ∈ trees, SettledByRoot tree) {last : Template}
    (hlast : last.Loaded (.root pos items) q home w)
    (hnone : ∀ n ∈ Node.forest items, isInherit n = false) (fuel : Nat) (f : Ref) :
    ((call fuel).enter last.root .environment c f).outcome w =
      ((intercepted (Line.resolution c line) fuel).enter last.root .environment c f).outcome
        w := by
  have hguarded := h.guarded hsettled hlast hnone
  have hknown : ∀ b, ∀ v ∈ (w.context c).chain b,
      v = last.root ∨ ∃ b, v ∈ Line.definitions line b :=
    fun b v hv => .inr ⟨b, h.chain b ▸ hv⟩
  have halike := Guarded.callsAlike_resolution (c := c) hknown (fun b => h.chain b) fuel
  exact ((halike.enter last.root .environment c f).outcome_eq
    ⟨⟨rfl, hguarded⟩, fun _ => .inl rfl⟩).1.symm

end World.Carries

/-- A definition in a line runs its body with a function for the next definition in the line. -/
theorem Line.outcome_enter {line b} (hnodup : (definitions line b).Nodup) {i}
    (hi : (line)[i]? = some t) {v} (hb : t.blocks.find? b = some v) (hw : w.Supplied)
    (ht : t.Loaded tree q home w) (fuel : Nat) (env : Value) (f : Ref) :
    ∃ body ss scope p p', tree.definitions.find? b = some body ∧
      Builds ⟨false, .output⟩ (Scope.set {} "super" (.localName "super")) body p ss scope p' ∧
      ((intercepted (resolution c line) (fuel + 2)).enter v env c f).outcome w =
        (do Eval.valueIn ((← execAll (intercepted (resolution c line) (fuel + 1)) (fuel + 1)
          w.activations.size (ss ++ [.ret (.joined .output)])).getD (.value .none)) :
            Eval Value).outcome (w.startBlock ((blockOf b ss).closure home) env c f b
              (definition? (line.drop (i + 1)) b)) := by
  obtain ⟨_, _, _, _, k, -, -, -, -, rfl, -⟩ := ht.block hb
  have hsuper (u : World) : ((intercepted (resolution c line) (fuel + 1)).method (.context c)
      .getSuper [.value env, .value (.ofText b), .value (.function k), .runtime]).outcome u =
        (.ok (.value (.function u.functions.size)), { u with
          functions := u.functions.push
            (.superBlock env c (.str b) (definition? (line.drop (i + 1)) b)) }) := by
    rw [← overridden?_of_getElem? hnodup hi hb, intercepted]
    exact congrArg (·.outcome u) (resolution_getSuper ..)
  obtain ⟨body, ss, scope, p, p', hbody, hbuilds, -, hrun⟩ :=
    hw.outcome_enterBlock ht hb fun u _ => hsuper u
  exact ⟨body, ss, scope, p, p', hbody, hbuilds, hrun⟩

/-! ## Renders -/

/-- The state in which a render enters the root of a template. -/
def World.opened (w : World) (t : Template) (vars : List (String × Value)) (frame? : Option Ref)
    (s : RenderState) : World :=
  { w.pushContext t (w.env.globals.insertAll vars) with
    frames := w.frames.push { parent := frame? }
    state? := some s }

theorem Engine.outcome_render_of_opened {call s} (halive : w.env.alive = true)
    (hopens : RenderState.opening w.state? w.env.maxDepth (w.template r).name? = .ok s)
    (vars : List (String × Value)) (frame? : Option Ref) :
    (render call r vars frame?).outcome w = (w.template r).conclude w.state?
      ((call.enter (w.template r).root .environment w.contexts.size w.frames.size).outcome
        (w.opened (w.template r) vars frame? s)) := by
  rw [outcome_render rfl halive]
  exact outcome_runEntry hopens

/-- The render of a template starts with a line of one. -/
theorem World.Supplied.carries_opened (h : w.Supplied) (hr : (w.template r).Loaded tree q home w)
    (vars : List (String × Value)) (frame? : Option Ref) (s : RenderState) :
    (w.opened (w.template r) vars frame? s).Carries w.contexts.size [w.template r] [tree] where
  supplied := (h.pushContext r _).congr rfl rfl rfl rfl rfl
  unshared :=
    { closure := fun _ _ hin => Nat.lt_irrefl _ (h.lt_of_inside hin)
      super := fun hq => Nat.lt_irrefl _ (h.overridden hq).1 }
  lt := by simp [World.opened, World.pushContext]
  loaded := .cons ⟨q, home, hr.of_extends (.refl _) (.refl _)⟩ .nil
  chain b := by
    rw [← nil_append [w.template r], Line.definitions_concat]
    exact w.chain_pushContext (w.template r) _ b
  nodup b := by
    rw [← nil_append [w.template r], Line.definitions_concat, Template.chain]
    cases (w.template r).blocks.find? b <;> simp [Line.definitions]

/-- A page that renders its block around the one that it overrides. -/
def pageSource : Source where
  name := "page"
  tree := .root {} [.inherit {} (.literal {} (.str "section")), .text {} "unseen",
    .block {} (.symbol {} "b") (.sequence {} [.text {} "page ",
      .output {} [.call {} (.symbol {} "super") none]])]
  file? := none

/-- The section that the page belongs to has an inner block. -/
def sectionSource : Source where
  name := "section"
  tree := .root {} [.inherit {} (.literal {} (.str "layout")),
    .block {} (.symbol {} "i") (.text {} "inner")]
  file? := none

/-- The layout of the section. -/
def layoutSource : Source where
  name := "layout"
  tree := .root {} [.text {} "<", .block {} (.symbol {} "b") (.sequence {} [.text {} "layout ",
    .block {} (.symbol {} "i") (.text {} "none")]), .text {} ">"]
  file? := none

def sectionSources : List Source :=
  [pageSource, sectionSource, layoutSource]

def sectionLoader : Loader :=
  .dict (sectionSources.map fun s => (s.name, s.tree))

theorem sectionSources_available : ∀ s ∈ sectionSources, s.Available sectionLoader := by
  have hcompiles : ∀ s ∈ sectionSources,
      (({} : Compiler).compile s.tree false (some s.name) s.file?).1.isOk = true := by
    decide +kernel
  have hnamed : ∀ s ∈ sectionSources, s.tree.BlocksNamed := by decide
  have hfound : ∀ s ∈ sectionSources,
      ((sectionLoader.source (.ofText s.name)).perform {} {}).1 = .ok (s.tree, s.file?) := by
    intro s hs
    simp only [sectionSources, mem_cons, not_mem_nil, or_false] at hs
    rcases hs with rfl | rfl | rfl <;> rfl
  intro s hs
  refine ⟨hfound s hs, ?_, hnamed s hs⟩
  have hok := hcompiles s hs
  cases hcompile : ({} : Compiler).compile s.tree false (some s.name) s.file? with
  | mk result compiler =>
    rw [hcompile] at hok
    cases result with
    | ok m => exact ⟨m, compiler, rfl⟩
    | error e => cases hok

theorem sectionLoader_namesBlocks :
    ({ loader? := some sectionLoader } : Environment).NamesBlocks := by
  rintro _ ⟨⟩
  decide

end Stencil
