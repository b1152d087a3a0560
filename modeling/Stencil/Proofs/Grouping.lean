import Stencil.Compile.Module

/-!
# How statements are grouped

Statements can stand in lists within lists, what is output can stand in one output or in several
ones, and raw text can be output or stand on its own. Trees that differ in such ways only
(`Regrouped`) compile to the same module, with the same temporaries, or fail with the same error
(`compileModule_of_regrouped`).
-/

namespace Stencil

open Compile Script List

/-- Lists of statements that differ in how statements are grouped, at any depth: a list may stand
for what is in it, an output for the outputs of its parts, and the output of a text for the text;
empty outputs and empty texts may be left out. -/
inductive Regrouped : List Node → List Node → Prop where
  | refl (ns : List Node) : Regrouped ns ns
  | symm {ns ms} (h : Regrouped ns ms) : Regrouped ms ns
  | trans {ns ms ks} (h : Regrouped ns ms) (h' : Regrouped ms ks) : Regrouped ns ks
  | append {ns ms ns' ms'} (h : Regrouped ns ms) (h' : Regrouped ns' ms') :
    Regrouped (ns ++ ns') (ms ++ ms')
  | sequence (pos : Position) (items : List Node) : Regrouped [.sequence pos items] items
  | output (pos first second : Position) (items items' : List Node) :
    Regrouped [.output pos (items ++ items')] [.output first items, .output second items']
  | noOutput (pos : Position) : Regrouped [.output pos []] []
  | rawText (pos textPos : Position) (s : String) :
    Regrouped [.output pos [.text textPos s]] [.text textPos s]
  | noText (pos : Position) : Regrouped [.text pos ""] []
  | branch (pos : Position) (test : Node) {body body'} (h : Regrouped [body] [body']) :
    Regrouped [.conditional pos test body none] [.conditional pos test body' none]
  | branches (pos : Position) (test : Node) {body body' otherwise otherwise'}
    (h : Regrouped [body] [body']) (h' : Regrouped [otherwise] [otherwise']) :
    Regrouped [.conditional pos test body (some otherwise)]
      [.conditional pos test body' (some otherwise')]
  | loop (pos : Position) (target source : Node) {body body'} (h : Regrouped [body] [body']) :
    Regrouped [.loop pos target source body] [.loop pos target source body']
  | macroDef (pos : Position) (name : Node) (params : List Node) {body body'}
    (h : Regrouped [body] [body']) :
    Regrouped [.macroDef pos name params body] [.macroDef pos name params body']
  | block (pos : Position) (name : Node) {body body'} (h : Regrouped [body] [body']) :
    Regrouped [.block pos name body] [.block pos name body']

namespace Compile

variable {site : Site} {scope : Scope Ident}

theorem stmts_singleton (n : Node) : stmts site scope [n] = stmt site scope n := by
  simp [stmts]

theorem stmts_append (ns ms : List Node) :
    stmts site scope (ns ++ ms) = stmts site scope ns >>= fun first =>
      stmts site first.2 ms >>= fun others => pure (first.1 ++ others.1, others.2) := by
  induction ns generalizing scope with
  | nil => simp [stmts]
  | cons n ns ih => simp [stmts, ih]

theorem outputs_append {buffer : Ident} (items items' : List Node) :
    outputs scope buffer (items ++ items') =
      (do return (← outputs scope buffer items) ++ (← outputs scope buffer items')) := by
  induction items with
  | nil => simp [outputs]
  | cons n items ih =>
    cases n
    case text pos s => by_cases hs : s.isEmpty <;> simp [outputs, ih, hs]
    all_goals simp [outputs, ih]

/-- A block, under what names it, with what its body compiles to. -/
def compiledBlock {α : Type} (d : α × Node) :
    α × (Site → Scope Ident → Gen (List Stmt × Scope Ident)) :=
  (d.1, fun site scope => stmt site scope d.2)

/-- The blocks in statements, with what their bodies compile to. -/
def compiledBlocks (ns : List Node) :
    List (Node × (Site → Scope Ident → Gen (List Stmt × Scope Ident))) :=
  (Node.blocks (.sequence {} ns)).map compiledBlock

theorem forest_append (ns ms : List Node) :
    Node.forest (ns ++ ms) = Node.forest ns ++ Node.forest ms := by
  induction ns with
  | nil => rfl
  | cons n ns ih => simp [Node.forest, ih]

theorem compiledBlocks_append (ns ms : List Node) :
    compiledBlocks (ns ++ ms) = compiledBlocks ns ++ compiledBlocks ms := by
  simp [compiledBlocks, Node.blocks, Node.descendants, forest_append]

theorem compiledBlocks_congr {ns ms ns' ms'} (h : compiledBlocks ns = compiledBlocks ms)
    (h' : compiledBlocks ns' = compiledBlocks ms') :
    compiledBlocks (ns ++ ns') = compiledBlocks (ms ++ ms') := by
  rw [compiledBlocks_append, h, h', compiledBlocks_append]

/-- The blocks in a statement that is none itself are those in its parts. -/
theorem compiledBlocks_singleton {n : Node} (h : ∀ pos name body, n ≠ .block pos name body) :
    compiledBlocks [n] = compiledBlocks n.children := by
  have hforest : n.descendants = Node.forest n.children := by
    cases n with
    | conditional _ _ _ n? | param _ _ n? =>
      cases n? <;> simp [Node.descendants, Node.children, Node.forest, Node.optional]
    | call _ _ args? | filter _ _ args? =>
      cases args? <;> simp [Node.descendants, Node.children, Node.forest, Node.argumentForest]
    | _ => simp [Node.descendants, Node.children, Node.forest, forest_append]
  unfold compiledBlocks Node.blocks
  rw [Node.descendants, Node.descendants, Node.forest, hforest, Node.forest, append_nil]
  cases n <;> first | rfl | exact absurd rfl (h _ _ _)

end Compile

/-- Statements that are regrouped compile to the same code, and so do the bodies of their blocks. -/
theorem Regrouped.compiled {ns ms} (h : Regrouped ns ms) :
    (∀ site scope, stmts site scope ns = stmts site scope ms) ∧
      compiledBlocks ns = compiledBlocks ms := by
  induction h with
  | refl => exact ⟨fun _ _ => rfl, rfl⟩
  | symm _ ih => exact ⟨fun site scope => (ih.1 site scope).symm, ih.2.symm⟩
  | trans _ _ ih ih' =>
    exact ⟨fun site scope => (ih.1 site scope).trans (ih'.1 site scope), ih.2.trans ih'.2⟩
  | append _ _ ih ih' =>
    exact ⟨fun site scope => by simp only [stmts_append, ih.1, ih'.1],
      compiledBlocks_congr ih.2 ih'.2⟩
  | sequence pos items =>
    exact ⟨fun site scope => by rw [stmts_singleton, stmt], compiledBlocks_singleton (by simp)⟩
  | output pos first second items items' =>
    refine ⟨fun site scope => by simp [stmts, stmt, outputs_append], ?_⟩
    rw [compiledBlocks_singleton (by simp)]
    exact compiledBlocks_congr (compiledBlocks_singleton (n := .output first items) (by simp)).symm
      (compiledBlocks_singleton (n := .output second items') (by simp)).symm
  | noOutput pos | rawText pos textPos s =>
    exact ⟨fun site scope => by simp [stmts, stmt, outputs], compiledBlocks_singleton (by simp)⟩
  | noText pos =>
    exact ⟨fun site scope => by simp [stmts, stmt], compiledBlocks_singleton (by simp)⟩
  | branch pos test _ ih =>
    simp only [stmts_singleton] at ih ⊢
    refine ⟨fun site scope => by simp only [stmt, ih.1], ?_⟩
    rw [compiledBlocks_singleton (by simp), compiledBlocks_singleton (by simp)]
    exact compiledBlocks_congr (rfl : compiledBlocks [test] = _) ih.2
  | branches pos test _ _ ih ih' =>
    simp only [stmts_singleton] at ih ih' ⊢
    refine ⟨fun site scope => by simp only [stmt, ih.1, ih'.1], ?_⟩
    rw [compiledBlocks_singleton (by simp), compiledBlocks_singleton (by simp)]
    exact compiledBlocks_congr (rfl : compiledBlocks [test] = _) (compiledBlocks_congr ih.2 ih'.2)
  | loop pos target source _ ih =>
    simp only [stmts_singleton] at ih ⊢
    refine ⟨fun site scope => by simp only [stmt, ih.1], ?_⟩
    rw [compiledBlocks_singleton (by simp), compiledBlocks_singleton (by simp)]
    exact compiledBlocks_congr (rfl : compiledBlocks [target, source] = _) ih.2
  | macroDef pos name params _ ih =>
    simp only [stmts_singleton] at ih ⊢
    refine ⟨fun site scope => by simp only [stmt, ih.1], ?_⟩
    rw [compiledBlocks_singleton (by simp), compiledBlocks_singleton (by simp)]
    exact compiledBlocks_congr (rfl : compiledBlocks (name :: params) = _) ih.2
  | block pos name _ ih =>
    simp only [stmts_singleton] at ih ⊢
    refine ⟨fun site scope => by simp only [stmt], ?_⟩
    have hparts (body : Node) : compiledBlocks [.block pos name body] =
        compiledBlock (name, body) :: compiledBlocks ([name] ++ [body]) := by
      simp [compiledBlocks, Node.blocks, Node.descendants, Node.forest]
    rw [hparts, hparts, compiledBlocks_congr rfl ih.2]
    simp [compiledBlock, ih.1]

/-! ## The module -/

namespace Compile

theorem enterBlock_congr (name : Node.Content) {body body'}
    (hbody : ∀ site scope, stmt site scope body = stmt site scope body') {t t' : BlockTable}
    (h : t.map compiledBlock = t'.map compiledBlock) :
    (enterBlock name body t).map compiledBlock = (enterBlock name body' t').map compiledBlock := by
  induction t generalizing t' with
  | nil =>
    cases map_eq_nil_iff.1 h.symm
    simp [enterBlock, compiledBlock, hbody]
  | cons d t ih =>
    obtain ⟨d', rest, rfl, hd, hrest⟩ := map_eq_cons_iff.1 h.symm
    obtain ⟨known, old⟩ := d
    obtain ⟨known', old'⟩ := d'
    obtain ⟨rfl, hold⟩ := Prod.mk.inj hd
    have hold' : compiledBlock (known', old) = compiledBlock (known', old') :=
      Prod.ext rfl hold.symm
    by_cases hknown : known'.equal name
    · simp [enterBlock, hknown, hrest, compiledBlock, hbody]
    · simp [enterBlock, hknown, ih hrest.symm, hold']

theorem blockFunctions_congr {t t' : BlockTable} (h : t.map compiledBlock = t'.map compiledBlock) :
    blockFunctions t = blockFunctions t' := by
  induction t generalizing t' with
  | nil => rw [map_eq_nil_iff.1 h.symm]
  | cons d t ih =>
    obtain ⟨d', rest, rfl, hd, hrest⟩ := map_eq_cons_iff.1 h.symm
    obtain ⟨name, hbody⟩ := Prod.mk.inj hd
    have hbody' (site : Site) (scope : Scope Ident) :
      stmt site scope d'.2 = stmt site scope d.2 := congrFun (congrFun hbody site) scope
    rw [blockFunctions, blockFunctions, ih hrest.symm, blockFunction, blockFunction, name, hbody']

/-- The functions of blocks with the same names whose bodies compile to the same code. The induction
is on the blocks, and the tables of those entered before them agree in this way. -/
theorem foldlM_blocks_congr {α : Type} {step : BlockTable → Node × Node → Gen BlockTable}
    {k : BlockTable → Gen α}
    (hstep : ∀ t d k, (step t d >>= k : Gen α) = nameOf d.1 >>= fun name =>
      demandKey name >>= fun _ => k (enterBlock name d.2 t))
    (hk : ∀ t t', t.map compiledBlock = t'.map compiledBlock → k t = k t')
    {ds ds' : List (Node × Node)} (hds : ds.map compiledBlock = ds'.map compiledBlock)
    {t t'} (ht : t.map compiledBlock = t'.map compiledBlock) :
    (ds.foldlM step t >>= k) = (ds'.foldlM step t' >>= k) := by
  induction ds generalizing ds' t t' with
  | nil =>
    cases map_eq_nil_iff.1 hds.symm
    simpa using hk t t' ht
  | cons d ds ih =>
    obtain ⟨d', rest, rfl, hd, hrest⟩ := map_eq_cons_iff.1 hds.symm
    obtain ⟨hname, hbody⟩ := Prod.mk.inj hd
    rw [foldlM_cons, foldlM_cons, bind_assoc, bind_assoc, hstep, hstep, hname]
    refine bind_congr fun name => bind_congr fun _ => ih hrest.symm ?_
    exact enterBlock_congr name (fun site scope => congrFun (congrFun hbody.symm site) scope) ht

end Compile

/-- **Grouping statements in another way changes nothing in what a template compiles to**: the
module, its functions for blocks and the number of temporaries are the same, or the error is. -/
theorem compileModule_of_regrouped {items items'} (h : Regrouped items items') (c : Compiler)
    (pos : Position) (framed : Bool) :
    c.compileModule (.root pos items) framed = c.compileModule (.root pos items') framed := by
  obtain ⟨hstmts, hblocks⟩ := h.compiled
  have hroot : rootFunction items = rootFunction items' := by
    rw [rootFunction, hstmts, rootFunction]
  have hmodule : templateModule (.root pos items) = templateModule (.root pos items') := by
    rw [templateModule, templateModule, hroot]
    refine bind_congr fun root => ?_
    refine foldlM_blocks_congr (fun t d k => by simp) (fun t t' ht => ?_) hblocks rfl
    have hnames : t.map (·.1) = t'.map (·.1) := by
      simpa [Function.comp_def, compiledBlock] using congrArg (map (·.1)) ht
    rw [blockFunctions_congr ht, hnames]
  simp only [Compiler.compileModule, hmodule]

/-- A list with a text and an output in it, and one output of both. -/
theorem compileModule_of_raw_text :
    let pos : Position := {}
    let items := [.sequence pos [.text pos "a", .output pos [.symbol pos "x"]]]
    let items' := [.output pos [.text pos "a", .symbol pos "x"]]
    Regrouped items items' ∧ ({} : Compiler).compileModule (.root pos items) false =
      ({} : Compiler).compileModule (.root pos items') false := by
  intro pos items items'
  have hsplit := (Regrouped.output pos pos pos [.text pos "a"] [.symbol pos "x"]).trans
    (.append (.rawText pos pos "a") (.refl _))
  have h : Regrouped items items' := (Regrouped.sequence pos _).trans hsplit.symm
  exact ⟨h, compileModule_of_regrouped h {} pos false⟩

end Stencil
