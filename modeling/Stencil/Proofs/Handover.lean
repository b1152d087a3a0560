import Stencil.Proofs.Lookup

/-!
# How a root hands over to its parent

The root of a template starts with an empty buffer and without a parent (`World.startRoot`). Where
it inherits by name, it loads the parent and adds the blocks of the parent to its context
(`World.inherit`). Once a parent is known, it enters the root of the parent with its own context and
frame (`Script.outcome_delegation`).
-/

namespace Stencil

open Script Compile Engine Eval List Store

variable {a : Activation} {parent : Value}

variable {w u : World} {r c f out home q : Ref} {env : Value} {k limit : Nat} {call : Call}

/-! ## The variables of a root -/

/-- The root function around the code of its statements. -/
def Compile.rootOf (ss : List Stmt) (child : Bool) : Script.Function where
  name := .root
  params := entryParams
  body := [.assign .output (.list []), .assign .parentTemplate (.const .null)] ++
    (ss ++ delegation child) ++ [.ret (.joined .output)]

/-- The variables of a root belong to it, and all that its statements assign. -/
theorem Compile.mem_owned_rootOf {ss child id}
    (h : id ∈ .output :: .parentTemplate :: entryParams ∨ id ∈ assignedInBody ss) :
    id ∈ ((rootOf ss child).closure home).owned := by
  show id ∈ ownedBy _ _
  rw [ownedBy, List.mem_eraseDups]
  simp only [rootOf, assignedInBody_append, List.mem_append, List.mem_cons] at h ⊢
  rcases h with (rfl | rfl | h) | h
  · simp [assignedInBody, Stmt.assigned]
  · simp [assignedInBody, Stmt.assigned]
  · exact .inl h
  · exact .inr (.inl (.inr (.inl h)))

/-- What the variables hold that every root has: the arguments it was entered with, its buffer and
its parent. -/
def rootVariable? (env : Value) (c f out : Ref) (parent : Value) : Ident → Option Cell
  | .env => some (.value env)
  | .context => some (.context c)
  | .frame => some (.frame f)
  | .runtime => some .runtime
  | .output => some (.value (.list out))
  | .parentTemplate => some (.value parent)
  | _ => none

/-- The activation of a root at work. -/
def Activation.AtWork (a : Activation) (env : Value) (c f out : Ref) (parent : Value) : Prop :=
  ∀ id cell, rootVariable? env c f out parent id = some cell →
    id ∈ a.owned ∧ a.vars.find? id = some cell

namespace Activation.AtWork

variable {a : Activation} {parent : Value}

theorem assign_temp (h : a.AtWork env c f out parent) (cell : Cell) :
    (a.assign (.temp k) cell).AtWork env c f out parent := by
  intro id held hid
  refine ⟨(h id held hid).1, (a.vars.find?_insert_of_ne ?_ cell).trans (h id held hid).2⟩
  rintro rfl
  cases hid

theorem assign_parent (h : a.AtWork env c f out parent) (v : Value) :
    (a.assign .parentTemplate (.value v)).AtWork env c f out v := by
  intro id held hid
  by_cases hparent : id = .parentTemplate
  · subst hparent
    cases hid
    exact ⟨(h .parentTemplate _ rfl).1, a.vars.find?_insert_self _ _⟩
  · have hold : rootVariable? env c f out parent id = some held := by
      cases id <;> first | exact hid | exact (hparent rfl).elim
    exact ⟨(h id held hold).1, (a.vars.find?_insert_of_ne hparent _).trans (h id held hold).2⟩

theorem outcome_read (h : a.AtWork env c f out parent) (ha : w.activations.get? r = some a)
    {id cell} (hid : rootVariable? env c f out parent id = some cell) :
    (read r id).outcome w = (.ok cell, w) :=
  outcome_read_own ha (h id cell hid).1 (h id cell hid).2

theorem outcome_entryArgs (h : a.AtWork env c f out parent) (ha : w.activations.get? r = some a) :
    (evalAll call r Expr.entryArgs).outcome w = (.ok (entryCells env c f), w) :=
  outcome_evalAll_cons (h.outcome_read ha rfl) <| outcome_evalAll_cons (h.outcome_read ha rfl) <|
    outcome_evalAll_cons (h.outcome_read ha rfl) <| outcome_evalAll_cons (h.outcome_read ha rfl)
      outcome_evalAll_nil

end Activation.AtWork

/-! ## The start of a root -/

/-- The state in which the statements of a root start. -/
def World.startRoot (w : World) (g : Closure) (env : Value) (c f : Ref) : World :=
  { w with
    lists := w.lists.push #[]
    activations :=
      ((w.activations.push (g.activation (entryCells env c f))).modify w.activations.size
        (·.assign .output (.value (.list w.lists.size)))).modify w.activations.size
          (·.assign .parentTemplate (.value .none)) }

/-- The code of a root begins by making its variables. -/
theorem outcome_execAll_rootOf (ss : List Stmt) (child : Bool) (home : Ref) (env : Value)
    (c f : Ref) :
    (execAll call limit w.activations.size (Compile.rootOf ss child).body).outcome { w with
          activations := w.activations.push
            (((rootOf ss child).closure home).activation (entryCells env c f)) } =
      (execAll call limit w.activations.size
        (ss ++ delegation child ++ [.ret (.joined .output)])).outcome
        (w.startRoot ((rootOf ss child).closure home) env c f) := by
  let start : World :=
    { w with
      activations := w.activations.push
        (((rootOf ss child).closure home).activation (entryCells env c f)) }
  have hlist : (eval call w.activations.size (.list [])).outcome start =
      (.ok (.value (.list w.lists.size)), { start with lists := w.lists.push #[] }) := rfl
  have hnull (u : World) : (eval call w.activations.size (.const .null)).outcome u =
      (.ok (.value .none), u) := rfl
  exact (outcome_execAll_cons (outcome_exec_assign hlist)).trans
    (outcome_execAll_cons (outcome_exec_assign (hnull _)))

/-- Entering the root of a loaded template runs its statements. -/
theorem Template.Loaded.outcome_enterRoot {t : Template} {pos items}
    (h : t.Loaded (.root pos items) q home w) :
    ∃ ss scope p, BuildsAll ⟨true, .output⟩ {} items {} ss scope p ∧ t.root = .function q ∧
      w.functions.get? q = some (.closure ((Compile.rootOf ss p.child).closure home)) ∧
      ∀ call limit env c f, (applyEntry call limit t.root env c f).outcome w =
        (do valueIn ((← execAll call limit w.activations.size
          (ss ++ delegation p.child ++ [.ret (.joined .output)])).getD (.value .none)) :
          Eval Value).outcome
          (w.startRoot ((rootOf ss p.child).closure home) env c f) := by
  obtain ⟨_, _, g, p, htree, hgives, hroot, hq⟩ := h.root
  cases htree
  obtain ⟨ss, scope, hbuilds, rfl⟩ := gives_rootFunction hgives
  refine ⟨ss, scope, p, hbuilds, hroot, hq, fun call limit env c f => ?_⟩
  rw [hroot, outcome_applyEntry hq rfl]
  exact outcome_bind_congr (outcome_execAll_rootOf ss p.child home env c f) _

namespace World

variable {g : Closure}

/-- A root starts with an empty buffer and without a parent. -/
theorem atWork_startRoot (w : World) (env : Value) (c f : Ref) (hparams : g.params = entryParams)
    (hcaptured : g.captured = [])
    (howned : ∀ id ∈ .output :: .parentTemplate :: entryParams, id ∈ g.owned) :
    ∃ a, (w.startRoot g env c f).activations.get? w.activations.size = some a ∧ a.owned = g.owned ∧
      a.AtWork env c f w.lists.size .none := by
  refine ⟨((g.activation (entryCells env c f)).assign .output (.value (.list w.lists.size))).assign
    .parentTemplate (.value .none), ?_, rfl, ?_⟩
  · show (Store.modify (Store.modify _ _ _) _ _).get? _ = _
    rw [get?_modify_self, get?_modify_self, get?_push_self]
    rfl
  · have hvars : (g.activation (entryCells env c f)).vars = Table.ofList [(.env, .value env),
        (.context, .context c), (.frame, .frame f), (.runtime, .runtime)] := by
      show Table.ofList (g.params.zip _ ++ g.captured) = _
      rw [hparams, hcaptured]
      rfl
    intro id cell hid
    refine ⟨howned id ?_, ?_⟩
    · cases id <;> cases hid <;> simp [entryParams]
    · show (((g.activation (entryCells env c f)).vars.insert .output _).insert
        .parentTemplate _).find? id = some cell
      rw [hvars]
      cases id <;> cases hid <;> rfl

/-- A root that may be entered is at work in a supplied state. -/
theorem Supplied.busy_startRoot (h : w.Supplied) (hq : w.functions.get? q = some (.closure g))
    (hentry : w.Enterable c (.function q)) {o} (ho : g.outer = some o) (env : Value) (f : Ref) :
    Busy w.activations.size g.owned (fun b => (blockSeen w.activations o b).isSome) (some c)
      (w.startRoot g env c f) := by
  obtain ⟨g', o', hg, hparams, hcaptured, ho', -⟩ := hentry.2 q rfl
  cases hq.symm.trans hg
  have hsupplied := h.activateEntry hq env f hentry
  have hown : .context ∈ g.owned := by
    rw [(h.closure hq).owned, ownedBy, mem_eraseDups, hparams]
    simp [entryParams]
  have hcontext : (g.activation (entryCells env c f)).vars.find? .context = some (.context c) := by
    show (Table.ofList (g.params.zip _ ++ g.captured)).find? _ = _
    rw [hparams, hcaptured]
    rfl
  have hinside (d : Ref) : Inside d (w.activations.push (g.activation (entryCells env c f)))
      w.activations.size ↔ some c = some d := by
    rw [inside_of_owned hsupplied.nesting.activation (w.activations.get?_push_self _) hown,
      hcontext]
    simp
  have hbusy : Busy w.activations.size g.owned (fun b => (blockSeen w.activations o b).isSome)
      (some c) (w.activate g (entryCells env c f)) :=
    ⟨hsupplied, h.running_activation hq ho hinside⟩
  have hlist := (Busy.closed.rest ⟨rfl, hbusy⟩
    { w.toObjects with lists := w.lists.push #[] } w.macros
    w.state?).2
  have houtput := hlist.assign .output (.value (.list w.lists.size)) Ident.noConfusion
    (fun _ => Ident.noConfusion) (fun _ => id) Ident.noConfusion
  exact houtput.assign .parentTemplate (.value .none) Ident.noConfusion
    (fun _ => Ident.noConfusion) (fun _ => id) fun _ _ _ ht => by cases ht

end World

/-! ## Inheriting by name -/

/-- The state in which code in the activation `r` has loaded a parent and has added its blocks to
the context `c`. -/
def World.inherit (w : World) (m : Module) (t : Template) (ms : Array String) (r c : Ref)
    (key : Ident) : World :=
  ((w.load m t ms).withParent r w.templates.size).adopt r c key t.blocks.entries

namespace World

variable {m : Module} {t : Template} {ms : Array String} {key : Ident}

theorem template_load (w : World) (m : Module) (t : Template) (ms : Array String) :
    (w.load m t ms).template w.templates.size = t := by
  show ((w.templates.push t).get? w.templates.size).getD default = t
  rw [w.templates.get?_push_self]
  rfl

theorem template_inherit (w : World) (m : Module) (t : Template) (ms : Array String)
    (r c : Ref) (key : Ident) : (w.inherit m t ms r c key).template w.templates.size = t :=
  w.template_load m t ms

theorem precedes_load (w : World) (m : Module) (t : Template) (ms : Array String) :
    w.Precedes (w.load m t ms) :=
  ⟨(Extends.refl _).push _, (Extends.refl _).push _, fun _ _ => Subset.refl _⟩

theorem chain_adopt (key : Ident) (hc : c < w.contexts.size) (t : Template) (b : String) :
    ((w.adopt r c key t.blocks.entries).context c).chain b =
      (w.context c).chain b ++ t.chain b :=
  (congrArg (·.chain b) (World.context_set hc _)).trans
    (Context.chain_foldl_addBlock t.nodup_blocks _ b)

theorem chain_inherit (key : Ident) (hc : c < w.contexts.size) (b : String) :
    ((w.inherit m t ms r c key).context c).chain b = (w.context c).chain b ++ t.chain b :=
  chain_adopt (w := (w.load m t ms).withParent r w.templates.size) key hc t b

theorem adopt_activations (w : World) (r c : Ref) (key : Ident) (entries : List (String × Value)) :
    (w.adopt r c key entries).activations = entries.foldl
      (fun acts e => acts.modify r (·.assign key (.value (.ofText e.1)))) w.activations := rfl

theorem get?_adopt_of_ne {entries} (hq : q ≠ r) :
    (w.adopt r c key entries).activations.get? q = w.activations.get? q := by
  rw [adopt_activations]
  generalize w.activations = acts
  induction entries generalizing acts with
  | nil => rfl
  | cons e rest ih => exact (ih _).trans (acts.get?_modify_of_ne _ (Ne.symm hq))

theorem get?_inherit_of_ne (hq : q ≠ r) :
    (w.inherit m t ms r c key).activations.get? q = (w.load m t ms).activations.get? q :=
  (get?_adopt_of_ne hq).trans (get?_modify_of_ne _ _ (Ne.symm hq))

/-- While blocks are added, the variables of a root hold what they held. -/
theorem atWork_adopt {entries} (ha : w.activations.get? r = some a)
    (h : a.AtWork env c f out parent) :
    ∃ a', (w.adopt r c (.temp k) entries).activations.get? r = some a' ∧ a'.owned = a.owned ∧
      a'.AtWork env c f out parent := by
  rw [adopt_activations]
  generalize w.activations = acts at ha
  induction entries generalizing acts a with
  | nil => exact ⟨a, ha, rfl, h⟩
  | cons e rest ih =>
    exact ih (h.assign_temp _) _ (by rw [acts.get?_modify_self, ha]; rfl)

theorem atWork_inherit (m : Module) (t : Template) (ms : Array String) (k : Nat)
    (ha : w.activations.get? r = some a) (h : a.AtWork env c f out parent) :
    ∃ a', (w.inherit m t ms r c (.temp k)).activations.get? r = some a' ∧ a'.owned = a.owned ∧
      a'.AtWork env c f out (.template w.templates.size) := by
  refine atWork_adopt (a := a.assign .parentTemplate (.value (.template w.templates.size))) ?_
    (h.assign_parent _)
  show ((w.activations.push _).modify r _).get? r = _
  rw [get?_modify_self, w.activations.get?_push_of_lt _ (get?_eq_some_lt ha), ha]
  rfl

/-- Inheriting changes one activation and adds others. -/
theorem activations_inherit {base} (hbase : Extends base w.activations) (hr : base.size ≤ r) :
    Extends base (w.inherit m t ms r c key).activations := by
  have hload : Extends base ((w.load m t ms).withParent r w.templates.size).activations :=
    (hbase.push _).modify hr _
  rw [inherit, adopt_activations]
  generalize ((w.load m t ms).withParent r w.templates.size).activations = acts at hload
  generalize t.blocks.entries = entries
  induction entries generalizing acts with
  | nil => exact hload
  | cons e rest ih => exact ih _ (hload.modify hr _)

end World

theorem Engine.outcome_addBlock (fuel : Nat) (c : Ref) (name : String) (v : Value) (w : World) :
    ((Engine.call (fuel + 1)).method (.context c) .addBlock
        [.value (.ofText name), .value v]).outcome w =
      (.ok (.value .none),
        w.setContext c ((w.context c).addBlock name v)) := by
  show (callMethod (call fuel) (.context c) .addBlock _).outcome w = _
  rw [callMethod_context, outcome_contextMethod_addBlock]

/-- A root that inherits by the name of a template that the loader has. -/
theorem Busy.outcome_inheritance {own known} (hw : Busy r own known (some c) w)
    (ha : w.activations.get? r = some a) (hat : a.AtWork .environment c f out parent)
    (hkey : .temp k ∈ a.owned) {source : Source} {loader} (hs : source.Available loader)
    (hloader : w.env.loader? = some loader) (fuel limit : Nat) :
    ∃ m t ms, (execAll (Engine.call (fuel + 1)) limit r
        (inheritance (.const (.str source.name)) (.temp k))).outcome w =
          (.ok none, w.inherit m t ms r c (.temp k)) ∧
      t.name? = some source.name ∧
      t.Loaded source.tree w.functions.size w.activations.size (w.load m t ms) ∧
      Busy r own known (some c) (w.inherit m t ms r c (.temp k)) := by
  obtain ⟨m, t, ms, hget, hname, hloaded⟩ := outcome_getTemplate hs hloader true
  have hsupplied : (w.load m t ms).Supplied := by
    have hattempt := hw.1.of_attempted (attempted_getTemplate hw.1.named (.ofText source.name) true)
    rwa [hget] at hattempt
  have hload : Busy r own known (some c) (w.load m t ms) :=
    ⟨hsupplied, hw.2.of_precedes hw.1 hsupplied (w.precedes_load m t ms)⟩
  have hfind : (eval (call (fuel + 1)) r (.method (.name .env) .getTemplate
      [.const (.str source.name), .const (.bool true)])).outcome w =
        (.ok (.value (.template w.templates.size)), w.load m t ms) := by
    rw [outcome_eval_method .getTemplate (hat.outcome_read ha rfl) rfl
      (outcome_evalAll_cons rfl (outcome_evalAll_cons rfl outcome_evalAll_nil))]
    exact outcome_bind_of_ok hget _
  obtain ⟨a', ha', hown⟩ := hw.2.activation
  cases ha.symm.trans ha'
  have hadopting := hload.adopting (hown ▸ (hat .parentTemplate _ rfl).1) (hown ▸ hkey)
    w.templates.size
  have hadopt := hadopting.outcome_adoption (call (fuel + 1)) limit (outcome_addBlock fuel c)
  have hbusy := hload.adopt (t := w.templates.size) (by simp [World.load]) k
  have htemplate : ((w.load m t ms).withParent r w.templates.size).template w.templates.size = t :=
    w.template_load m t ms
  rw [htemplate] at hadopt
  rw [w.template_load m t ms] at hbusy
  refine ⟨m, t, ms, ?_, hname, hloaded, hbusy⟩
  rw [inheritance_eq, outcome_execAll_cons (outcome_exec_assign hfind), execAll_singleton]
  exact hadopt

/-! ## Handing over -/

/-- Once a parent is known, its root is called instead of what follows. -/
theorem Script.outcome_execAll_delegation {t}
    (hparent : reads? w r .parentTemplate = some (.value (.template t))) (rest : List Stmt) :
    (execAll call limit r (delegation true ++ rest)).outcome w =
      (do return some (← callCell call (.value (w.template t).root)
        (← evalAll call r Expr.entryArgs)) : Eval (Option Cell)).outcome w := by
  have hread := outcome_read_of_reads? hparent
  have htest : (eval call r (.compare (.name .parentTemplate) [(.isNot, .const .null)])).outcome w =
      (.ok (.value (.bool true)), w) := by
    rw [eval, eval, outcome_bind_of_ok hread]
    rfl
  have hroot : (eval call r (.attr (.name .parentTemplate) .rootRenderFunc)).outcome w =
      (.ok (.value (w.template t).root), w) := by
    rw [eval, eval, outcome_bind_of_ok hread]
    rfl
  show (execAll call limit r (.branch _ _ _ :: rest)).outcome w = _
  rw [execAll, outcome_bind, outcome_exec_branch htest, if_pos rfl, execAll_singleton, exec,
    Expr.method, eval, bind_assoc, outcome_bind_of_ok hroot, bind_assoc, outcome_bind]
  rcases (evalAll call r Expr.entryArgs).outcome w with ⟨_ | cells, v⟩
  · rfl
  · dsimp only
    rw [outcome_bind]
    rcases (callCell call (.value (w.template t).root) cells).outcome v with ⟨_ | _, _⟩ <;> rfl

variable (limit call) in
/-- Once a parent is known, the root of the parent is entered instead of what follows. -/
theorem Script.outcome_delegation {t} (ha : w.activations.get? r = some a)
    (hat : a.AtWork env c f out (.template t)) (rest : List Stmt) :
    (do valueIn ((← execAll call limit r (delegation true ++ rest)).getD
        (.value .none)) : Eval Value).outcome w =
      (call.enter (w.template t).root env c f).outcome w := by
  have hparent := (reads?_own ha (hat .parentTemplate _ rfl).1).trans (hat .parentTemplate _ rfl).2
  rw [outcome_bind_congr (outcome_execAll_delegation hparent rest), bind_assoc,
    outcome_bind_of_ok (hat.outcome_entryArgs ha), bind_assoc]
  have hcall : callCell call (.value (w.template t).root) (entryCells env c f) =
      (do return .value (← call.enter (w.template t).root env c f)) := rfl
  rw [hcall, bind_assoc, outcome_bind]
  rcases (call.enter (w.template t).root env c f).outcome w with ⟨_ | _, _⟩ <;> rfl

end Stencil
