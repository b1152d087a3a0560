import Stencil.Proofs.Loop
import Stencil.Proofs.Naming

/-!
# Generated statements do what their trees say

The code of plain statements, run in an activation of its own, does what direct interpretation of
the tree does: it appends the same output, stores the same variables, makes the same calls and halts
in the same way (`Builds.performs`). For a whole template this says that its root function gives
what `Direct.root` gives (`applyEntry_root_agrees_with_direct`).
-/

namespace Stencil

open Script Direct Eval List

variable {k : Knowledge} {call : Call} {limit : Nat}

/-! ## All plain statements -/

open Compile

variable {place : Place} {out : Ref}

theorem Script.execAll_orPass (r : Ref) (ss : List Stmt) :
    execAll call limit r (if ss.isEmpty then [.pass] else ss) = execAll call limit r ss := by
  cases ss with
  | nil => simp only [isEmpty_nil, if_true, execAll, exec, pure_bind]
  | cons s rest => rfl

theorem cons_unless {c : Bool} (s : Stmt) (ss : List Stmt) :
    (if c then ss else s :: ss) = (if c then [] else [s]) ++ ss := by
  cases c <;> rfl

variable {scope : Scope Ident} {ss : List Stmt} {items : List Node} {p p' : Progress}

/-- Statements inside a frame of their own. -/
theorem Performs.inFrame (hs : call.Sound) {temps} (hk : Stage scope place k temps out)
    (hid : Ident.frame ∈ k.own ∧ k.hidden .frame) {y}
    (h : ∀ g, Performs call limit ((k.adopt g place.frame).learn .frame (.frame g)) ss (y g)) :
    Performs call limit k ([.pushFrame] ++ ss ++ [.popFrame]) (pushFrame place.frame >>= y) := by
  refine Mirror.exec_pushFrame hs hk.frame hid fun g => ?_
  have hpop : Follows call limit ((k.adopt g place.frame).learn .frame (.frame g)) [.popFrame]
      (pure ()) fun o _ w w' => o = none ∧ Mirror k w w' := by
    refine Mirror.exec_popFrame (k := (k.adopt g place.frame).learn .frame (.frame g)) hs rfl
      mem_cons_self hid ?_
    rw [Follows, execAll]
    refine Coupled.pure fun w w' hw => ⟨rfl, hw.weaken (fun id c hc => ?_) fun _ hp =>
      mem_cons_of_mem _ hp⟩
    by_cases hf : id = .frame
    · subst hf
      exact hk.frame.symm.trans hc
    · rw [Knowledge.known_learn_of_ne _ hf, Knowledge.known_learn_of_ne _ hf]
      exact hc
  have hrun := Mirror.exec_append (h g) hpop
  rwa [bind_pure_unit] at hrun

section

variable {index arr length element : Ident} {e : Expr} {ss : List Stmt}

theorem Knowledge.covers_sequenceLoop {name} (h : k.Covers (assignedInBody ([.pushFrame] ++
      Compile.sequenceLoop name index arr length element e ss ++ [.popFrame]))) :
    (Ident.frame ∈ k.own ∧ k.hidden .frame) ∧ k.Covers [index, arr, length, element] ∧
      k.Covers e.assigned ∧ k.Covers (assignedInBody ss) := by
  simp only [Compile.sequenceLoop, Compile.sequenceRound, assignedInBody_append, assignedInBody,
    List.cons_append, List.nil_append, Stmt.pushFrame, Stmt.assigned, Target.assigned,
    Knowledge.covers_append, Knowledge.covers_cons] at h ⊢
  simp_all [Expr.assigned, assignedIn]

theorem Knowledge.covers_pairLoop {keyName valueName key}
    (h : k.Covers (assignedInBody ([.pushFrame] ++
      Compile.pairLoop keyName valueName index arr key element e ss ++ [.popFrame]))) :
    (Ident.frame ∈ k.own ∧ k.hidden .frame) ∧ k.Covers [index, arr, key, element] ∧
      k.Covers e.assigned ∧ k.Covers (assignedInBody ss) := by
  simp only [Compile.pairLoop, Compile.pairRound, assignedInBody_append, assignedInBody,
    List.cons_append, List.nil_append, Stmt.pushFrame, Stmt.assigned, Target.assigned,
    Knowledge.covers_append, Knowledge.covers_cons] at h ⊢
  simp_all [Expr.assigned, assignedInEntries]

end

namespace Compile

mutual

/-- Texts, outputs, sequences, conditionals, loops and assignments, to any depth. -/
def isPlain : Node → Bool
  | .text .. | .output .. | .assign .. => true
  | .sequence _ items => arePlain items
  | .conditional _ _ body none => isPlain body
  | .conditional _ _ body (some otherwise) => isPlain body && isPlain otherwise
  | .loop _ _ _ body => isPlain body
  | _ => false

/-- Whether all nodes are plain statements. -/
def arePlain : List Node → Bool
  | [] => true
  | n :: rest => isPlain n && arePlain rest

end

end Compile

mutual

/-- A plain statement leaves the scope as it was and does not make its template inherit. -/
theorem Compile.Builds.of_plain {site scope scope' n p p' ss} (hn : isPlain n = true) :
    Builds site scope n p ss scope' p' → scope' = scope ∧ p'.child = p.child
  | .text => ⟨rfl, rfl⟩
  | .output h => ⟨rfl, h.advances.child_eq⟩
  | .sequence h => by
    rw [isPlain] at hn
    exact h.of_plain hn
  | .conditional he h => by
    rw [isPlain] at hn
    obtain ⟨rfl, hchild⟩ := h.of_plain hn
    exact ⟨rfl, hchild.trans he.advances.child_eq⟩
  | .alternative he h h' => by
    rw [isPlain, Bool.and_eq_true] at hn
    obtain ⟨rfl, hchild⟩ := h.of_plain hn.1
    obtain ⟨rfl, hchild'⟩ := h'.of_plain hn.2
    exact ⟨rfl, hchild'.trans (hchild.trans he.advances.child_eq)⟩
  | .sequenceLoop _ he h | .pairLoop _ he h => by
    rw [isPlain] at hn
    exact ⟨rfl, (h.of_plain hn).2.trans he.advances.child_eq⟩
  | .assign he _ => ⟨rfl, he.advances.child_eq⟩
  | .macroDef .. | .block .. | .inherit .. | .inclusion .. | .importAll .. | .importNames .. => by
    simp [isPlain] at hn

theorem Compile.BuildsAll.of_plain {site scope scope' ns p p' ss} (hns : arePlain ns = true) :
    BuildsAll site scope ns p ss scope' p' → scope' = scope ∧ p'.child = p.child
  | .nil => ⟨rfl, rfl⟩
  | .cons h hs => by
    rw [arePlain, Bool.and_eq_true] at hns
    obtain ⟨rfl, hchild⟩ := h.of_plain hns.1
    obtain ⟨rfl, hchild'⟩ := hs.of_plain hns.2
    exact ⟨rfl, hchild'.trans hchild⟩

end

/-- The code of an output. -/
theorem Compile.BuildsOutputs.performs (hs : call.Sound)
    (h : BuildsOutputs scope .output items p ss p') (hk : Stage scope place k p.temps out)
    (hc : k.Covers (assignedInBody ss)) :
    Performs call limit k ss (Direct.outputs call out place items) := by
  induction h with
  | nil =>
    rw [Direct.outputs]
    exact .nil
  | text _ ih =>
    rw [Direct.outputs, cons_unless] at *
    rw [assignedInBody_append] at hc
    exact Mirror.exec_append (.appendText hs hk _) (ih hk (Knowledge.covers_append.1 hc).2)
  | expr hne he _ ih =>
    obtain ⟨hce, hcs⟩ := Knowledge.covers_append.1 hc
    simp only [Stmt.emit, Stmt.assigned, Expr.method, Expr.assigned, assignedIn_one,
      Expr.assigned_helper, nil_append] at hce
    have htext := Shows.helper_one hs hk.runtime .toStr rfl
      (he.shows hs hk.toStands hce) fun inner v => .value (.lift (toText v))
    have hrest : Performs call limit k _ _ := ih (hk.after he.advances.temps_le) hcs
    have hrun : Performs call limit k (.emit .output (.helper .toStr [_]) :: _) _ :=
      Mirror.exec_expr (Shows.emit hs hk htext) hrest
    rw [outputs_cons hne]
    simpa only [append, bind_assoc, pure_bind] using hrun

mutual

/-- The code of a plain statement does what the statement says. -/
theorem Compile.Builds.performs (hs : call.Sound) {inRoot scope scope' place k n p p' ss}
    (hn : isPlain n = true) :
    Builds ⟨inRoot, .output⟩ scope n p ss scope' p' → Stage scope place k p.temps out →
    k.Covers (assignedInBody ss) →
    Performs call limit k ss (Direct.stmt call limit out place n)
  | .text, hk, _ => by
    rw [Direct.stmt]
    exact .appendText hs hk _
  | .output h, hk, hc => by
    rw [Direct.stmt]
    exact h.performs hs hk hc
  | .sequence h, hk, hc => by
    rw [isPlain] at hn
    rw [Direct.stmt]
    exact h.performs hs hn hk hc
  | .conditional he h, hk, hc => by
    rw [isPlain] at hn
    simp only [assignedInBody, Stmt.assigned, assignedInBody_orPass, List.append_nil] at hc
    obtain ⟨hce, hcb⟩ := Knowledge.covers_append.1 hc
    rw [Direct.stmt]
    refine .branch (he.shows hs hk.toStands hce) ?_ .nil
    rw [Performs, execAll_orPass]
    exact h.performs hs hn (hk.after he.advances.temps_le) hcb
  | .alternative he h h', hk, hc => by
    rw [isPlain, Bool.and_eq_true] at hn
    obtain ⟨rfl, -⟩ := h.of_plain hn.1
    simp only [assignedInBody, Stmt.assigned, assignedInBody_orPass, List.append_nil] at hc
    obtain ⟨hc, hco⟩ := Knowledge.covers_append.1 hc
    obtain ⟨hce, hcb⟩ := Knowledge.covers_append.1 hc
    rw [Direct.stmt]
    refine .branch (he.shows hs hk.toStands hce) ?_
      (h'.performs hs hn.2 (hk.after (Nat.le_trans he.advances.temps_le h.temps_le)) hco)
    rw [Performs, execAll_orPass]
    exact h.performs hs hn.1 (hk.after he.advances.temps_le) hcb
  | .assign he hnamed, hk, hc => by
    obtain ⟨hid, hc⟩ := Knowledge.covers_cons.1 hc
    obtain ⟨hce, -⟩ := Knowledge.covers_append.1 hc
    rw [Direct.stmt]
    refine Performs.assign hid (hk.unknown (Nat.lt_succ_self _))
      (he.shows hs (hk.toStands.mono (Nat.le_succ _)) hce) fun v => ?_
    exact .stores hs (hk.learn (Nat.lt_succ_self _) (.value v))
      (Knowledge.known_learn_self ..) hnamed
  | .sequenceLoop htarget he h, hk, hc => by
    obtain ⟨hcf, hct, hce, hcb⟩ := Knowledge.covers_sequenceLoop hc
    rw [isPlain] at hn
    rw [Direct.stmt]
    simp only [htarget]
    refine .inFrame hs hk hcf fun g => ?_
    have hinner := hk.inFrame place.frame g
    refine .sequenceLoop hs (fun known v hstage => ?_) hinner (Nat.lt_succ_self _)
      (Nat.lt_succ_self _) (Nat.lt_succ_of_le he.advances.temps_le) (Nat.lt_succ_self _) hct
      (he.shows hs (hinner.toStands.mono (Nat.le_add_right _ 2)) hce)
    exact h.performs hs hn hstage hcb
  | .pairLoop htarget he h, hk, hc => by
    obtain ⟨hcf, hct, hce, hcb⟩ := Knowledge.covers_pairLoop hc
    rw [isPlain] at hn
    rw [Direct.stmt]
    simp only [htarget]
    refine .inFrame hs hk hcf fun g => ?_
    have hinner := hk.inFrame place.frame g
    refine .pairLoop hs (fun known u v hstage => ?_) hinner (Nat.lt_succ_self _)
      (Nat.lt_succ_self _) (Nat.lt_succ_of_le he.advances.temps_le) (Nat.lt_succ_self _) hct
      (he.shows hs (hinner.toStands.mono (Nat.le_add_right _ 2)) hce)
    exact h.performs hs hn hstage hcb
  | .macroDef .., _, _ | .block .., _, _ | .inherit .., _, _ | .inclusion .., _, _
  | .importAll .., _, _ | .importNames .., _, _ => by
    simp [isPlain] at hn

theorem Compile.BuildsAll.performs (hs : call.Sound) {inRoot scope scope' place k ns p p' ss}
    (hns : arePlain ns = true) :
    BuildsAll ⟨inRoot, .output⟩ scope ns p ss scope' p' → Stage scope place k p.temps out →
    k.Covers (assignedInBody ss) →
    Performs call limit k ss (Direct.stmts call limit out place ns)
  | .nil, _, _ => by
    rw [Direct.stmts]
    exact .nil
  | .cons h hrest, hk, hc => by
    rw [arePlain, Bool.and_eq_true] at hns
    obtain ⟨rfl, -⟩ := h.of_plain hns.1
    rw [assignedInBody_append] at hc
    obtain ⟨hc, hcs⟩ := Knowledge.covers_append.1 hc
    rw [Direct.stmts]
    exact Mirror.exec_append (h.performs hs hns.1 hk hc)
      (hrest.performs hs hns.2 (hk.after h.temps_le) hcs)

end

theorem Compile.BuildsAll.coreless {site scope' ns} (h : BuildsAll site {} ns p ss scope' p') :
    ∀ id ∈ assignedInBody ss, coreFunction? id = none ∨ id = .frame ∨ id = .parentTemplate := by
  intro id hid
  refine (h.own_of_assigned id hid).imp (fun hown => ?_)
    (.imp_right And.right)
  cases id <;> first | rfl | cases hown

/-! ## Whole templates -/

/-- The body of the root function of plain statements. -/
def Compile.rootBody (ss : List Stmt) : List Stmt :=
  .assign .output (.list []) :: .assign .parentTemplate (.const .null) ::
    (ss ++ [.ret (.joined .output)])

theorem Compile.assignedInBody_rootBody (ss : List Stmt) :
    assignedInBody (rootBody ss) = .output :: .parentTemplate :: assignedInBody ss := by
  simp [rootBody, assignedInBody, assignedInBody_append, Stmt.assigned, Expr.assigned, assignedIn,
    Expr.joined, Expr.method, Expr.text]

/-- A root function assigns none of the functions that every module can call. -/
theorem Compile.BuildsAll.coreless_root {site scope' ns} (h : BuildsAll site {} ns p ss scope' p') :
    ∀ id ∈ assignedInBody (rootBody ss), coreFunction? id = none := by
  intro id hid
  rw [assignedInBody_rootBody] at hid
  rcases List.mem_cons.1 hid with rfl | hid
  · rfl
  rcases List.mem_cons.1 hid with rfl | hid
  · rfl
  rcases h.coreless id hid with hid | rfl | rfl
  · exact hid
  · rfl
  · rfl

theorem Compile.rootFunction_of_plain {fn} (hplain : arePlain items = true)
    (hchild : p.child = false) (h : Gives (rootFunction items) p fn p') :
    ∃ ss scope, BuildsAll ⟨true, .output⟩ {} items p ss scope p' ∧ fn.name = .root ∧
      fn.params = entryParams ∧ fn.body = rootBody ss := by
  obtain ⟨ss, scope, hbuilds, rfl⟩ := gives_rootFunction h
  refine ⟨ss, scope, hbuilds, rfl, rfl, ?_⟩
  simp [rootBody, delegation, (hbuilds.of_plain hplain).2, hchild]

/-- What an entry point is called with. -/
def Direct.Place.arguments (place : Place) : List Cell :=
  [.value place.env, .context place.context, .frame place.frame, .runtime]

/-- What is known of an entry point that was just called: what it was called with, and the functions
that every module can call. -/
def Knowledge.entered (r : Ref) (own : List Ident) (place : Place) : Knowledge where
  r
  hidden := fun _ => True
  own
  known
    | .env => some (.value place.env)
    | .context => some (.context place.context)
    | .frame => some (.frame place.frame)
    | .runtime => some .runtime
    | id => coreFunction? id

/-- The function with the reference `q` is `fn`, defined in a module that redefines none of the
functions that every module can call. -/
structure Installed (w : World) (q : Ref) (fn : Script.Function) (home : Ref) : Prop where
  function : w.functions.get? q = some (.closure (fn.closure home))
  module : ∃ a, w.activations.get? home = some a ∧ a.outer = none ∧
    ∀ id ∈ a.owned, coreFunction? id = none

namespace Installed

variable {w : World} {q home : Ref} {fn : Script.Function}

theorem of_load (w : World) {m i} (hfn : m.functions[i]? = some fn)
    (hnames : ∀ f ∈ m.functions, coreFunction? f.name = none) :
    Installed ((loadModule m).outcome w).2 (w.functions.size + i) fn w.activations.size where
  function := by
    show (w.functions.append _).get? (w.functions.size + i) = _
    rw [w.functions.get?_append_add, getElem?_map, hfn]
    rfl
  module := by
    refine ⟨_, w.activations.get?_push_self _, rfl, fun id hid => ?_⟩
    obtain ⟨f, hf, rfl⟩ := mem_map.1 hid
    exact hnames f hf

/-- A module of one function, with a context and a frame to enter it. -/
theorem of_single (fn : Script.Function) (hname : coreFunction? fn.name = none) :
    let w := ((do
      let _ ← loadModule ⟨[fn]⟩
      let _ ← newContext {}
      newFrame {} : Eval Ref).outcome {}).2
    w.Scoped ∧ Installed w 0 fn 0 := by
  have hin := of_load {} (m := ⟨[fn]⟩) (i := 0) rfl fun f hf => mem_singleton.1 hf ▸ hname
  exact ⟨World.scoped_empty.load ⟨[fn]⟩ rfl, hin.function, hin.module⟩

theorem activate_scoped (h : Installed w q fn home) (hw : w.Scoped) (args : List Cell) :
    (w.activate (fn.closure home) args).Scoped :=
  hw.pushActivation fun _ ho => hw.closure h.function ho

theorem reads?_param (h : Installed w q fn home) (hw : w.Scoped) (args : List Cell) {id}
    (hid : id ∈ fn.params) : reads? (w.activate (fn.closure home) args) w.activations.size id =
      (Table.ofList (fn.params.zip args)).find? id := by
  have hself := w.activations.get?_push_self ((fn.closure home).activation args)
  have howned : id ∈ ((fn.closure home).activation args).owned := by
    simp [Closure.activation, Script.Function.closure, ownedBy, hid]
  rw [reads?_of_owner (ownerOf_eq_self (h.activate_scoped hw args).activation hself howned) hself]
  simp [Closure.activation, Script.Function.closure]

/-- The functions that every module can call are read from nowhere. -/
theorem reads?_core (h : Installed w q fn home) (hw : w.Scoped) (args : List Cell) {id c}
    (hid : coreFunction? id = some c) (hparam : id ∉ fn.params)
    (hbody : id ∉ assignedInBody fn.body) :
    reads? (w.activate (fn.closure home) args) w.activations.size id = some c := by
  obtain ⟨a, ha, houter, hcore⟩ := h.module
  have hscoped := h.activate_scoped hw args
  have hself := w.activations.get?_push_self ((fn.closure home).activation args)
  have hhome : (w.activations.push ((fn.closure home).activation args)).get? home = some a := by
    rw [w.activations.get?_push_of_lt _ (Store.get?_eq_some_lt ha), ha]
  have howned : id ∉ ((fn.closure home).activation args).owned := by
    simp [Closure.activation, Script.Function.closure, ownedBy, hparam, hbody]
  have hnone : id ∉ a.owned := fun hmem => Option.some_ne_none c (hid.symm.trans (hcore id hmem))
  rw [reads?_of_unowned, hid]
  rw [ownerOf_eq_outer hscoped.activation hself howned]
  show ownerOf _ id home = none
  rw [ownerOf_eq_outer hscoped.activation hhome hnone, houter]
  rfl

/-- An entry point that was just called knows its arguments. -/
theorem mirror (h : Installed w q fn home) (hw : w.Scoped) (place : Place)
    (hparams : fn.params = entryParams)
    (hbody : ∀ id ∈ assignedInBody fn.body, coreFunction? id = none) :
    Mirror (.entered w.activations.size (fn.closure home).owned place)
      (w.activate (fn.closure home) place.arguments)
      (w.activate (fn.closure home) place.arguments) where
  veiled := by
    have hscoped := h.activate_scoped hw place.arguments
    refine ⟨_, rfl, hscoped, ?_, rfl, fun _ _ => rfl, fun {b} hb => ⟨b.vars, hb, fun _ _ => rfl⟩,
      fun {p c o} hp ho id _ _ _ hown => ?_⟩
    · show w.activations.size < (w.activations.push _).size
      simp
    · -- Functions are nested in older activations, and so is all they can reach.
      exact Nat.not_le_of_lt (hw.closure hp ho) (ownerOf_le hscoped.activation hown)
  owned := ⟨_, w.activations.get?_push_self _, rfl⟩
  reads id c hc := by
    have hparam {id : Ident} (hid : id ∈ entryParams) :=
      h.reads?_param hw place.arguments (hparams ▸ hid)
    cases id with
    | env | context | frame | runtime =>
      refine (hparam (by decide)).trans ?_
      rw [hparams]
      exact hc
    | _ =>
      exact h.reads?_core hw place.arguments hc (by simp [hparams, entryParams]) fun hmem =>
        nomatch (hbody _ hmem).symm.trans hc
  parent _ _ hf := nomatch hf

/-- Entering a function runs its body in an activation of its own. -/
theorem outcome_applyEntry (h : Installed w q fn home) (place : Place)
    (hparams : fn.params = entryParams) :
    (Engine.applyEntry call limit (.function q) place.env place.context place.frame).outcome w =
      (do valueIn ((← execAll call limit w.activations.size fn.body).getD (.value .none)) :
        Eval Value).outcome (w.activate (fn.closure home) place.arguments) :=
  Engine.outcome_applyEntry h.function hparams

end Installed

theorem Shows.joined (hs : call.Sound) (hout : k.known .output = some (.value (.list out))) :
    Yields call k (.joined .output) (liftM (joinWith "" (.list out))) := by
  obtain ⟨inner, hinner⟩ := hs.method
  have hcall (cs : List Cell) : callCell call (.method (.value (.ofConstant (.str ""))) .join) cs =
      Engine.callMethod inner (.value (.ofConstant (.str ""))) .join cs := hinner _ _ cs
  have hfield : fieldOf (.value (.ofConstant (.str ""))) .join =
      pure (.method (.value (.ofConstant (.str ""))) .join) := rfl
  simp only [Yields, Expr.joined, Expr.method, Expr.text, eval, evalAll, pure_bind, bind_assoc,
    hfield, hcall]
  exact Mirror.read hout (value (lift _))

theorem Shows.ret {α : Type} {g e} {y : Eval α} (he : Shows k g (eval call k.r e) y) :
    Shows k (fun a => some (g a)) (execAll call limit k.r [.ret e]) y := by
  rw [execAll_singleton, exec]
  have h := he.bind (s := fun c => pure (some c)) fun a =>
    Shows.pure a
  rwa [bind_pure] at h

/-- What a root function knows once it has made its output buffer and has no parent yet. -/
def Knowledge.atRoot (r : Ref) (own : List Ident) (place : Place) (out : Ref) : Knowledge :=
  ((Knowledge.entered r own place).learn .output (.value (.list out))).learn .parentTemplate
    (.value .none)

theorem Knowledge.Covers.atRoot {r out place ids} (home : Ref) (fn : Script.Function)
    (h : ids ⊆ assignedInBody fn.body) :
    (Knowledge.atRoot r (fn.closure home).owned place out).Covers ids :=
  fun id hid =>
    ⟨by simp [Knowledge.atRoot, learn, entered, Script.Function.closure, ownedBy, h hid], trivial⟩

theorem Stage.ofRoot {r own} (hplace : ∀ x, place.names x = none) (temps : Nat) (out : Ref) :
    Stage {} place (.atRoot r own place out) temps out where
  env := rfl
  context := rfl
  frame := rfl
  runtime := rfl
  bound hx := nomatch hx
  free _ := hplace _
  temps_le hj := nomatch hj
  output := rfl
  list := rfl
  len := rfl
  range := rfl

/-- A root function begins with an empty buffer and without a parent. -/
theorem Mirror.begin (call : Call) (limit : Nat) (ss : List Stmt) {r own place w}
    (h : Mirror (.entered r own place) w w)
    (hown : ∀ id ∈ assignedInBody (rootBody ss), id ∈ own) :
    ∃ u, (execAll call limit r (rootBody ss)).outcome w =
        (execAll call limit r (ss ++ [.ret (.joined .output)])).outcome u ∧
      Mirror (.atRoot r own place w.lists.size) u { w with lists := w.lists.push #[] } := by
  rw [assignedInBody_rootBody] at hown
  have hmade : Agree (fun _ _ => Mirror (.entered r own place)) (Veiled r fun _ => True)
      (.ok w.lists.size, { w with lists := w.lists.push #[] })
      (.ok w.lists.size, { w with lists := w.lists.push #[] }) :=
    (Mirror.step (Neutral.lift newBuffer) w w h).mono (fun _ _ _ _ h => h.2) fun _ _ h => h
  cases hmade with
  | ok hmade =>
    refine ⟨_, ?_, (hmade.assign (.value (.list w.lists.size)) (hown _ (.head _)) trivial).assign
      (.value .none) (hown _ (.tail _ (.head _))) trivial⟩
    rw [rootBody, outcome_execAll_cons (outcome_exec_assign rfl),
      outcome_execAll_cons (outcome_exec_assign rfl)]
    rfl

/-- A root function interprets a template, if its statements do once it has begun. -/
theorem Installed.agree_root {w : World} {q home : Ref} {fn : Script.Function} {ss : List Stmt}
    {items : List Node} (h : Installed w q fn home) (hw : w.Scoped) (place : Place)
    (hparams : fn.params = entryParams) (hbody : fn.body = rootBody ss)
    (hcore : ∀ id ∈ assignedInBody (rootBody ss), coreFunction? id = none) :
    let start := w.activate (fn.closure home) place.arguments
    let made : World := { start with lists := start.lists.push #[] }
    let k := Knowledge.atRoot w.activations.size (fn.closure home).owned place start.lists.size
    (∀ u, Mirror k u made → Agree (fun c v w w' => c = some (.value v) ∧ Mirror k w w')
      (Veiled k.r k.hidden)
      ((execAll call limit k.r (ss ++ [.ret (.joined .output)])).outcome u)
      ((Direct.stmts call limit start.lists.size place items >>= fun _ =>
        liftM (joinWith "" (.list start.lists.size))).outcome made)) →
    Agree (fun v v' u u' => v = v' ∧ Veiled w.activations.size (fun _ => True) u u')
      (Veiled w.activations.size fun _ => True)
      ((Engine.applyEntry call limit (.function q) place.env place.context place.frame).outcome w)
      ((Direct.root call limit place items).outcome start) := by
  intro start made k hrun
  obtain ⟨u, hbegin, hready⟩ := Mirror.begin call limit ss
    (h.mirror hw place hparams (hbody ▸ hcore)) fun id hid => by
      simp [Script.Function.closure, ownedBy, hbody, hid]
  rw [h.outcome_applyEntry place hparams, hbody, outcome_bind_congr hbegin,
    ← bind_pure (Direct.root call limit place items)]
  refine Agree.bind (hrun u hready) ?_
  rintro _ v u u' ⟨rfl, hu⟩
  exact .ok ⟨rfl, hu.veiled⟩

/-- Rendering a template of plain statements is interpreting its tree: entering its root function
gives the text that direct interpretation gives or halts in the same way, makes the same calls with
the same arguments in the same order, and leaves the same state but for the variables of the
function's own activation. Calls may be any sound ones, those of the engine among them. -/
theorem applyEntry_root_agrees_with_direct {items : List Node} {p p' : Progress}
    {fn : Script.Function} {w : World} {q home : Ref} {base : Call} (hbase : base.Sound)
    (limit : Nat) (observe : Value → List Value → Operation Unit) (env : Value)
    (context frame : Ref) (hcode : Gives (rootFunction items) p fn p')
    (hplain : arePlain items = true) (hchild : p.child = false) (hw : w.Scoped)
    (hin : Installed w q fn home) :
    let call := base.watched observe
    let place : Direct.Place := { env, context, frame, names := fun _ => none }
    Agree (fun v v' u u' => v = v' ∧ Veiled w.activations.size (fun _ => True) u u')
      (Veiled w.activations.size fun _ => True)
      ((Engine.applyEntry call limit (.function q) env context frame).outcome w)
      ((Direct.root call limit place items).outcome
        (w.activate (fn.closure home) place.arguments)) := by
  intro call place
  obtain ⟨ss, _, hbuilds, -, hparams, hbody⟩ := rootFunction_of_plain hplain hchild hcode
  have hs : call.Sound := hbase.watched observe
  refine hin.agree_root hw place hparams hbody hbuilds.coreless_root fun u hu => ?_
  have hcover : assignedInBody ss ⊆ assignedInBody fn.body := fun id hid => by
    rw [hbody, assignedInBody_rootBody]
    exact .tail _ (.tail _ hid)
  exact Mirror.exec_append (hbuilds.performs hs hplain (.ofRoot (fun _ => rfl) _ _)
    (.atRoot home fn hcover)) (Shows.ret (Shows.joined hs rfl)) u _ hu

/-- A loop with a conditional, an assignment and a call in its body, and a name that is bound inside
the loop only. -/
theorem loop_root_agrees_with_direct :
    let pos : Position := {}
    let items : List Node := [
      .loop pos (.symbol pos "x") (.array pos [.literal pos (.int 0), .literal pos (.int 7)])
        (.sequence pos [ .conditional pos (.symbol pos "x") (.output pos [.symbol pos "x"]) none,
          .assign pos [.symbol pos "y"] (.call pos
            (.lookup pos (.literal pos (.str "a")) (.literal pos (.str "upper"))) (some []))]),
      .output pos [.symbol pos "x", .symbol pos "y"]]
    ∃ fn p', Gives (rootFunction items) {} fn p' ∧ arePlain items = true ∧
      let w := ((do
        let _ ← Eval.loadModule ⟨[fn]⟩
        let _ ← Eval.newContext {}
        Eval.newFrame {} : Eval Ref).outcome {}).2
      w.Scoped ∧ Installed w 0 fn 0 ∧
      let call := (Engine.call 9).watched fun _ _ => Eval.note "called"
      let place : Direct.Place := { env := .none, context := 0, frame := 0, names := fun _ => none }
      Agree (fun v v' u u' => v = v' ∧ Veiled w.activations.size (fun _ => True) u u')
        (Veiled w.activations.size fun _ => True)
        ((Engine.applyEntry call 8 (.function 0) .none 0 0).outcome w)
        ((Direct.root call 8 place items).outcome (w.activate (fn.closure 0) place.arguments)) := by
  intro pos items
  obtain ⟨fn, p', hcode⟩ : ∃ fn p', Gives (rootFunction items) {} fn p' := ⟨_, _, rfl⟩
  have hplain : arePlain items = true := rfl
  obtain ⟨-, -, -, hname, -⟩ := rootFunction_of_plain hplain rfl hcode
  obtain ⟨hscoped, hin⟩ := Installed.of_single fn (hname ▸ rfl)
  exact ⟨fn, p', hcode, hplain, hscoped, hin, applyEntry_root_agrees_with_direct
    (Engine.sound_call 8) 8 _ .none 0 0 hcode hplain rfl hscoped hin⟩

end Stencil
