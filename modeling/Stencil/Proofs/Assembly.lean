import Stencil.Proofs.Emission

/-!
# Which code is generated for every kind of statement

`Builds site scope n p ss scope' p'` says in rules, one for each kind of statement, that the node
`n` compiles to the script statements `ss` at a site and in a scope, and that `scope'` is the scope
for what follows it. A compilation that succeeds follows the rules (`builds_of_gives`), so a
property of all generated code is proved by induction on them, and no proof about it has to look
into the compiler again.
-/

namespace Stencil

open Direct List Script

/-- The output of a template that is included. -/
abbrev Script.Expr.rendered (id : Ident) : Expr :=
  .method (.name id) .render [.method (.name .context) .getVariables [], .name .frame]

/-- A scope knows identifiers that satisfy `P` only. -/
def Scope.Only {β : Type} (P : β → Prop) (scope : Scope β) : Prop :=
  ∀ x b, scope.lookup x = some b → P b

namespace Scope.Only

variable {β : Type} {P Q : β → Prop} {scope : Scope β}

theorem empty : Only P {} := by
  intro x b hb
  cases hb

theorem mono (h : scope.Only P) (hPQ : ∀ b, P b → Q b) : scope.Only Q :=
  fun x b hb => hPQ b (h x b hb)

theorem push (h : scope.Only P) : scope.push.Only P :=
  fun x b hb => h x b hb

theorem set (h : scope.Only P) (x : String) {b} (hb : P b) : (scope.set x b).Only P := by
  intro y b' hb'
  by_cases hyx : y = x
  · subst hyx
    rw [lookup_set_self, Option.some.injEq] at hb'
    exact hb' ▸ hb
  · rw [lookup_set_of_ne _ hyx] at hb'
    exact h y b' hb'

theorem foldl {α : Type} {f} {as : List α}
    (hf : ∀ a ∈ as, ∀ {scope : Scope β}, scope.Only P → (f scope a).Only P) :
    ∀ {scope : Scope β}, scope.Only P → (as.foldl f scope).Only P := by
  induction as with
  | nil => exact fun h => h
  | cons a rest ih =>
    intro scope h
    exact ih (fun a ha => hf a (mem_cons_of_mem _ ha)) (hf a mem_cons_self h)

end Scope.Only

namespace Compile

open Script (Ident Stmt)

variable {scope : Scope Ident} {c : Node.Content} {p p' : Progress}

theorem only_bindLocal {P} (h : scope.Only P) (hc : P (.localName c.text)) :
    (bindLocal scope c).Only P := by
  unfold bindLocal
  split
  · exact h.set _ hc
  · exact h

/-! ## The rules -/

/-- The statements that the items of an output node compile to, at a buffer. -/
inductive BuildsOutputs (scope : Scope Ident) (buffer : Ident) :
    List Node → Progress → List Stmt → Progress → Prop where
  | nil {p : Progress} : BuildsOutputs scope buffer [] p [] p
  | text {pos s rest p p' ss} : BuildsOutputs scope buffer rest p ss p' →
    BuildsOutputs scope buffer (.text pos s :: rest) p
      (if s.isEmpty then ss else .emit buffer (.text s) :: ss) p'
  | expr {n rest p q p' e ss} :
    (∀ pos s, n ≠ .text pos s) → Emits scope n p e q → BuildsOutputs scope buffer rest q ss p' →
    BuildsOutputs scope buffer (n :: rest) p (.emit buffer (.helper .toStr [e]) :: ss) p'

/-- The names that the targets of an assignment stand for. -/
inductive Named : List Node → List String → Prop where
  | nil : Named [] []
  | cons {n name rest names} :
    targetName? n = some name → Named rest names → Named (n :: rest) (name :: names)

/-- The names of macro parameters. -/
inductive NamesParams : List Node → List Node.Content → Prop where
  | nil : NamesParams [] []
  | cons {n name c rest names} :
    n.nameNode? = some name → name.content? = some c → NamesParams rest names →
    NamesParams (n :: rest) (c :: names)

/-- The signature that macro parameters compile to. -/
inductive BuildsSignature (scope : Scope Ident) :
    List Node → Progress → List Expr → Progress → Prop where
  | nil {p : Progress} : BuildsSignature scope [] p [] p
  | required {pos name c rest p p' es} :
    name.content? = some c → BuildsSignature scope rest p es p' →
    BuildsSignature scope (.param pos name none :: rest) p
      (.tuple [.ofContent c, .const .null] :: es) p'
  | optional {pos name default c rest p q p' e es} :
    name.content? = some c → Emits scope default p e q → BuildsSignature scope rest q es p' →
    BuildsSignature scope (.param pos name (some default) :: rest) p
      (.tuple [.ofContent c, e] :: es) p'

/-- The statements that publish a macro under its name, unless the template has a parent. -/
def publication (child : Bool) : Node.Content → List Stmt
  | .constant (.str name) =>
    if child then []
    else (if isPrivate name then [] else [Stmt.addExport name]) ++
      [Stmt.setVariable name (.name (.localName name))]
  | _ => []

/-- The names that an import statement takes out of a module, each with the name it is bound to. -/
def importedNames (names : List (String × Option String)) : List (String × String) :=
  names.map fun (name, alias?) => (name, aliasOf name alias?)

mutual

/-- The statements that a statement compiles to, with the scope for what follows it. -/
inductive Builds : Site → Scope Ident → Node → Progress → List Stmt → Scope Ident → Progress →
    Prop where
  | text {site scope pos s p} : Builds site scope (.text pos s) p
      (if s.isEmpty then [] else [.emit site.buffer (.text s)]) scope p
  | output {site scope pos items p p' ss} : BuildsOutputs scope site.buffer items p ss p' →
    Builds site scope (.output pos items) p ss scope p'
  | sequence {site scope scope' pos items p p' ss} : BuildsAll site scope items p ss scope' p' →
    Builds site scope (.sequence pos items) p ss scope' p'
  | conditional {site scope scope' pos test body p q p' e ss} :
    Emits scope test p e q → Builds site scope body q ss scope' p' →
    Builds site scope (.conditional pos test body none) p
      [.branch e (if ss.isEmpty then [.pass] else ss) []] scope' p'
  | alternative {site scope scope' scope'' pos test body otherwise p q q' p' e ss ss'} :
    Emits scope test p e q → Builds site scope body q ss scope' q' →
    Builds site scope' otherwise q' ss' scope'' p' →
    Builds site scope (.conditional pos test body (some otherwise)) p
      [.branch e (if ss.isEmpty then [.pass] else ss) ss'] scope'' p'
  | sequenceLoop {site scope inner pos target source body name p q p' e ss} :
    loopNames? target = some (.one name) →
    Emits scope.push source { p with temps := p.temps + 1 + 1 } e q →
    Builds site (scope.push.set name (.temp (q.temps + 1 + 1))) body
      { q with temps := q.temps + 1 + 1 } ss inner p' →
    Builds site scope (.loop pos target source body) p
      ([.pushFrame] ++ sequenceLoop name (.temp (p.temps + 1)) (.temp (p.temps + 1 + 1))
        (.temp (q.temps + 1)) (.temp (q.temps + 1 + 1)) e ss ++ [.popFrame]) scope p'
  | pairLoop {site scope inner pos target source body keyName valueName p q p' e ss} :
    loopNames? target = some (.two keyName valueName) →
    Emits scope.push source { p with temps := p.temps + 1 + 1 } e q →
    Builds site ((scope.push.set keyName (.temp (q.temps + 1))).set valueName
      (.temp (q.temps + 1 + 1))) body { q with temps := q.temps + 1 + 1 } ss inner p' →
    Builds site scope (.loop pos target source body) p
      ([.pushFrame] ++ pairLoop keyName valueName (.temp (p.temps + 1)) (.temp (p.temps + 1 + 1))
        (.temp (q.temps + 1)) (.temp (q.temps + 1 + 1)) e ss ++ [.popFrame]) scope p'
  | assign {site scope pos targets value p p' e names} :
    Emits scope value { p with temps := p.temps + 1 } e p' → Named targets names →
    Builds site scope (.assign pos targets value) p
      (.assign (.temp (p.temps + 1)) e :: names.flatMap (store (.temp (p.temps + 1)))) scope p'
  | macroDef {site scope inner pos name body params c names p q p' ss es} :
    name.content? = some c → NamesParams params names →
    Builds { site with buffer := .macroOutput } (names.foldl bindLocal scope.push) body p ss inner
      q →
    BuildsSignature scope params q es p' →
    Builds site scope (.macroDef pos name params body) p
      (macroDefinition c names es ss ++ publication p'.child c) (bindLocal scope c) p'
  | block {site scope pos name body c p} : name.content? = some c →
    Builds site scope (.block pos name body) p [blockReference site c] scope p
  | inherit {site scope pos parent p q e} : p.child = false → Emits scope parent p e q →
    Builds site scope (.inherit pos parent) p (inheritance e (.temp (q.temps + 1))) scope
      { temps := q.temps + 1, child := true }
  | inclusion {site scope pos template p p' e} :
    Emits scope template { p with temps := p.temps + 1 } e p' →
    Builds site scope (.inclusion pos template) p
      [.assign (.temp (p.temps + 1)) (.method (.name .env) .getTemplate [e]),
        .emit site.buffer (.rendered (.temp (p.temps + 1)))] scope p'
  | importAll {site scope pos template target p p' e} : Emits scope template p e p' →
    Builds site scope (.importAll pos template target) p
      (.assign (.localName target) (moduleOf e) :: publishImport p'.child target)
      (scope.set target (.localName target)) p'
  | importNames {site scope pos template names p p' e} :
    Emits scope template { p with temps := p.temps + 1 + 1 } e p' →
    Builds site scope (.importNames pos template names) p ([.assign (.temp (p.temps + 1)) e,
          .assign (.temp (p.temps + 1 + 1)) (moduleOf (.name (.temp (p.temps + 1))))] ++
        (importedNames names).flatMap fun (name, bound) =>
          importName p'.child (.temp (p.temps + 1)) (.temp (p.temps + 1 + 1)) name bound)
      ((importedNames names).foldl (fun s (_, bound) => s.set bound (.localName bound)) scope) p'

/-- The statements that a list of statements compiles to, each in the scope that the ones before it
leave. -/
inductive BuildsAll : Site → Scope Ident → List Node → Progress → List Stmt → Scope Ident →
    Progress → Prop where
  | nil {site scope p} : BuildsAll site scope [] p [] scope p
  | cons {site scope scope' scope'' n rest p q p' ss ss'} :
    Builds site scope n p ss scope' q → BuildsAll site scope' rest q ss' scope'' p' →
    BuildsAll site scope (n :: rest) p (ss ++ ss') scope'' p'

end

/-! ## Compilation follows the rules -/

theorem buildsOutputs_of_gives {buffer : Ident} :
    ∀ (items : List Node) {p p' : Progress} {ss : List Stmt},
    Gives (outputs scope buffer items) p ss p' → BuildsOutputs scope buffer items p ss p' := by
  intro items
  induction items with
  | nil =>
    intro p p' ss h
    simp only [outputs, gives_pure] at h
    obtain ⟨rfl, rfl⟩ := h
    exact .nil
  | cons n rest ih =>
    intro p p' ss h
    cases hn : n with
    | text pos s =>
      subst hn
      simp only [outputs, gives_bind, gives_pure] at h
      obtain ⟨ss, q, hss, rfl, rfl⟩ := h
      exact .text (ih hss)
    | _ =>
      subst hn
      simp only [outputs, gives_bind, gives_pure] at h
      obtain ⟨e, q, he, ss, q', hss, rfl, rfl⟩ := h
      exact .expr (by simp) (emits_of_gives _ he) (ih hss)

theorem gives_textOf {name} : Gives (textOf c) p name p' ↔ c = .constant (.str name) ∧ p' = p := by
  unfold textOf
  split <;> simp_all [eq_comm]

theorem named_of_gives : ∀ (targets : List Node) {p p' : Progress} {names : List String},
    Gives (targets.mapM fun t => do textOf (← nameOf t)) p names p' → Named targets names ∧ p' = p
  | [], p, p', names, h => by
    rw [mapM_nil, gives_pure] at h
    exact ⟨h.1 ▸ .nil, h.2⟩
  | n :: rest, p, p', names, h => by
    simp only [mapM_cons, gives_bind, gives_pure, gives_nameOf, gives_textOf] at h
    obtain ⟨name, _, ⟨c, _, ⟨hc, rfl⟩, rfl, rfl⟩, names, q, hrest, rfl, rfl⟩ := h
    obtain ⟨hnamed, rfl⟩ := named_of_gives rest hrest
    exact ⟨.cons (by simp [targetName?, hc]) hnamed, rfl⟩

theorem gives_loopNames {target names} (h : Gives (loopNames target) p names p') :
    loopNames? target = some names ∧ p' = p := by
  unfold loopNames at h
  split at h <;> simp only [gives_pure, gives_reject, gives_throw] at h
  all_goals
    obtain ⟨rfl, rfl⟩ := h
    exact ⟨rfl, rfl⟩

theorem gives_demandKey {a} : Gives (demandKey c) p a p' ↔ c.isKey = true ∧ p' = p := by
  unfold demandKey
  cases c.isKey <;> simp

theorem namesParams_of_gives : ∀ (params : List Node) {p p' : Progress}
    {names : List Node.Content}, Gives (params.mapM paramKey) p names p' →
    NamesParams params names ∧ p' = p := by
  intro params
  induction params with
  | nil =>
    intro p p' names h
    rw [mapM_nil, gives_pure] at h
    exact ⟨h.1 ▸ .nil, h.2⟩
  | cons n rest ih =>
    intro p p' names h
    simp only [mapM_cons, paramKey, paramName, gives_bind, gives_pure, gives_demandKey] at h
    obtain ⟨c, q, ⟨c', q', hname, _, _, ⟨-, rfl⟩, rfl, rfl⟩, names, q'', hrest, rfl, rfl⟩ := h
    cases hn : n.nameNode? with
    | none => simp only [hn, gives_lacking] at hname
    | some name =>
      simp only [hn, gives_nameOf] at hname
      obtain ⟨hc, rfl⟩ := hname
      obtain ⟨hnames, rfl⟩ := ih hrest
      exact ⟨.cons hn hc hnames, rfl⟩

theorem buildsSignature_of_gives : ∀ (params : List Node) {p p' : Progress}
    {es : List Expr}, Gives (signature scope params) p es p' →
    BuildsSignature scope params p es p' := by
  intro params
  induction params with
  | nil =>
    intro p p' es h
    simp only [signature, gives_pure] at h
    obtain ⟨rfl, rfl⟩ := h
    exact .nil
  | cons n rest ih =>
    intro p p' es h
    cases n <;> try simp only [signature, gives_lacking] at h
    case param pos name default? =>
      cases default? with
      | none =>
        simp only [signature, gives_bind, gives_pure, gives_nameOf] at h
        obtain ⟨c, _, ⟨hc, rfl⟩, es, q, hes, rfl, rfl⟩ := h
        exact .required hc (ih hes)
      | some d =>
        simp only [signature, gives_bind, gives_pure, gives_nameOf] at h
        obtain ⟨c, _, ⟨hc, rfl⟩, e, q, he, es, q', hes, rfl, rfl⟩ := h
        exact .optional hc (emits_of_gives d he) (ih hes)

theorem eq_publication_of_gives {child ss} (h : Gives (publishMacro child c) p ss p') :
    ss = publication child c ∧ p' = p := by
  unfold publishMacro at h
  cases child with
  | true =>
    simp only [if_true, gives_pure] at h
    refine ⟨h.1.trans ?_, h.2⟩
    unfold publication
    split <;> rfl
  | false =>
    simp only [Bool.false_eq_true, if_false, gives_bind, gives_pure, gives_textOf] at h
    obtain ⟨name, _, ⟨rfl, rfl⟩, rfl, rfl⟩ := h
    exact ⟨rfl, rfl⟩

mutual

/-- The compilation of a statement follows the rules. -/
theorem builds_of_gives {site scope scope' p p' ss} :
    ∀ n, Gives (stmt site scope n) p (ss, scope') p' → Builds site scope n p ss scope' p'
  | .text _ _, h => by
    simp only [stmt, gives_pure, Prod.mk.injEq] at h
    obtain ⟨⟨rfl, rfl⟩, rfl⟩ := h
    exact .text
  | .output _ items, h => by
    simp only [stmt, gives_bind, gives_pure, Prod.mk.injEq] at h
    obtain ⟨ss, q, hss, ⟨rfl, rfl⟩, rfl⟩ := h
    exact .output (buildsOutputs_of_gives items hss)
  | .sequence _ items, h => by
    rw [stmt] at h
    exact .sequence (buildsAll_of_gives items h)
  | .conditional _ test body none, h => by
    simp only [stmt, value, gives_bind, gives_pure, gives_demand, Prod.mk.injEq] at h
    obtain ⟨e, q, ⟨_, _, ⟨-, rfl⟩, he⟩, ⟨ss, _⟩, q', hbody, ⟨rfl, rfl⟩, rfl⟩ := h
    exact .conditional (emits_of_gives test he) (builds_of_gives body hbody)
  | .conditional _ test body (some otherwise), h => by
    simp only [stmt, value, gives_bind, gives_pure, gives_demand, Prod.mk.injEq] at h
    obtain ⟨e, q, ⟨_, _, ⟨-, rfl⟩, he⟩, ⟨ss, _⟩, q', hbody, ⟨ss', _⟩, q'', hother,
      ⟨rfl, rfl⟩, rfl⟩ := h
    exact .alternative (emits_of_gives test he) (builds_of_gives body hbody)
      (builds_of_gives otherwise hother)
  | .loop _ target source body, h => by
    simp only [stmt, value, gives_bind, gives_demand, gives_fresh] at h
    obtain ⟨_, _, ⟨rfl, rfl⟩, _, _, ⟨rfl, rfl⟩, e, q, ⟨_, _, ⟨-, rfl⟩, he⟩, names, q', hnames,
      h⟩ := h
    obtain ⟨htarget, rfl⟩ := gives_loopNames hnames
    cases names with
    | one name =>
      simp only [gives_bind, gives_pure, gives_fresh, Prod.mk.injEq] at h
      obtain ⟨_, _, ⟨rfl, rfl⟩, _, _, ⟨rfl, rfl⟩, ⟨ss, _⟩, q'', hbody, ⟨rfl, rfl⟩, rfl⟩ := h
      exact .sequenceLoop htarget (emits_of_gives source he) (builds_of_gives body hbody)
    | two key value =>
      simp only [gives_bind, gives_pure, gives_fresh, Prod.mk.injEq] at h
      obtain ⟨_, _, ⟨rfl, rfl⟩, _, _, ⟨rfl, rfl⟩, ⟨ss, _⟩, q'', hbody, ⟨rfl, rfl⟩, rfl⟩ := h
      exact .pairLoop htarget (emits_of_gives source he) (builds_of_gives body hbody)
  | .assign _ targets e, h => by
    simp only [stmt, value, gives_bind, gives_pure, gives_demand, gives_fresh, Prod.mk.injEq] at h
    obtain ⟨_, _, ⟨rfl, rfl⟩, e, q, ⟨_, _, ⟨-, rfl⟩, he⟩, names, q', hnames, ⟨rfl, rfl⟩, rfl⟩ := h
    obtain ⟨hnamed, rfl⟩ := named_of_gives targets (by simpa only [gives_bind] using hnames)
    exact .assign (emits_of_gives _ he) hnamed
  | .macroDef _ name params body, h => by
    simp only [stmt, gives_bind, gives_pure, gives_nameOf, gives_get, gives_demandKey,
      Prod.mk.injEq] at h
    obtain ⟨c, _, ⟨hc, rfl⟩, names, q, hnames, ⟨ss, _⟩, q', hbody, es, q'', hes, _, _,
      ⟨-, rfl⟩, _, _, ⟨rfl, rfl⟩, published, _, hpublished, ⟨rfl, rfl⟩, rfl⟩ := h
    obtain ⟨hparams, rfl⟩ := namesParams_of_gives params hnames
    obtain ⟨rfl, rfl⟩ := eq_publication_of_gives hpublished
    exact .macroDef hc hparams (builds_of_gives body hbody) (buildsSignature_of_gives params hes)
  | .block _ name _, h => by
    simp only [stmt, gives_bind, gives_pure, gives_nameOf, Prod.mk.injEq] at h
    obtain ⟨c, _, ⟨hc, rfl⟩, ⟨rfl, rfl⟩, rfl⟩ := h
    exact .block hc
  | .inherit _ parent, h => by
    simp only [stmt, gives_bind, gives_get] at h
    obtain ⟨r, q, ⟨hr, hq⟩, h⟩ := h
    rw [hr, hq] at h
    cases hchild : p.child with
    | true => simp [hchild] at h
    | false =>
      simp only [hchild, Bool.false_eq_true, if_false, value, gives_bind, gives_pure, gives_demand,
        gives_fresh, gives_modify, Prod.mk.injEq] at h
      obtain ⟨e, q, ⟨_, _, ⟨-, rfl⟩, he⟩, _, _, ⟨rfl, rfl⟩, _, _, rfl, ⟨rfl, rfl⟩, rfl⟩ := h
      exact .inherit hchild (emits_of_gives parent he)
  | .inclusion _ template, h => by
    simp only [stmt, value, gives_bind, gives_pure, gives_demand, gives_fresh, Prod.mk.injEq] at h
    obtain ⟨_, _, ⟨rfl, rfl⟩, e, q, ⟨_, _, ⟨-, rfl⟩, he⟩, ⟨rfl, rfl⟩, rfl⟩ := h
    exact .inclusion (emits_of_gives template he)
  | .importAll _ template target, h => by
    simp only [stmt, gives_bind, gives_pure, gives_get, Prod.mk.injEq] at h
    obtain ⟨e, q, he, _, _, ⟨rfl, rfl⟩, ⟨rfl, rfl⟩, rfl⟩ := h
    exact .importAll (emits_of_gives template he)
  | .importNames _ template names, h => by
    simp only [stmt, gives_bind, gives_pure, gives_get, gives_fresh, Prod.mk.injEq] at h
    obtain ⟨_, _, ⟨rfl, rfl⟩, _, _, ⟨rfl, rfl⟩, e, q, he, _, _, ⟨rfl, rfl⟩, ⟨rfl, rfl⟩, rfl⟩ := h
    exact .importNames (emits_of_gives template he)
  | .root .., h => by simp only [stmt, gives_throw] at h
  | .literal .., h | .symbol .., h | .group .., h | .array .., h | .pair .., h | .dict .., h
  | .binary .., h | .unary .., h | .operand .., h | .compare .., h | .lookup .., h | .keyword .., h
  | .call .., h | .filter .., h | .param .., h | .unknown .., h =>
    by simp only [stmt, gives_reject] at h

theorem buildsAll_of_gives {site scope scope' p p' ss} :
    ∀ ns, Gives (stmts site scope ns) p (ss, scope') p' → BuildsAll site scope ns p ss scope' p'
  | [], h => by
    simp only [stmts, gives_pure, Prod.mk.injEq] at h
    obtain ⟨⟨rfl, rfl⟩, rfl⟩ := h
    exact .nil
  | n :: rest, h => by
    simp only [stmts, gives_bind, gives_pure, Prod.mk.injEq] at h
    obtain ⟨⟨ss, _⟩, q, hfirst, ⟨ss', _⟩, q', hrest, ⟨rfl, rfl⟩, rfl⟩ := h
    exact .cons (builds_of_gives n hfirst) (buildsAll_of_gives rest hrest)

end

/-! ## Temporaries are only ever handed out -/

theorem BuildsOutputs.advances {buffer items ss} (h : BuildsOutputs scope buffer items p ss p') :
    p.Advances p' := by
  induction h with
  | nil => exact .refl _
  | text _ ih => exact ih
  | expr _ he _ ih => exact he.advances.trans ih

theorem BuildsSignature.advances {params es} (h : BuildsSignature scope params p es p') :
    p.Advances p' := by
  induction h with
  | nil => exact .refl _
  | required _ _ ih => exact ih
  | optional _ he _ ih => exact he.advances.trans ih

mutual

/-- Compiling a statement never takes a temporary back. -/
theorem Builds.temps_le {site scope scope' n p p' ss} :
    Builds site scope n p ss scope' p' → p.temps ≤ p'.temps
  | .text | .block _ => Nat.le_refl _
  | .output h => h.advances.temps_le
  | .sequence h => h.temps_le
  | .conditional he h => Nat.le_trans he.advances.temps_le h.temps_le
  | .alternative he h h' =>
    Nat.le_trans he.advances.temps_le (Nat.le_trans h.temps_le h'.temps_le)
  | .sequenceLoop _ he h | .pairLoop _ he h => by
    have hsource := he.advances.temps_le
    have hbody := h.temps_le
    simp only at hsource hbody
    omega
  | .assign he _ | .inclusion he => he.advances.fresh.temps_le
  | .macroDef _ _ h hes => Nat.le_trans h.temps_le hes.advances.temps_le
  | .inherit _ he => Nat.le_succ_of_le he.advances.temps_le
  | .importAll he => he.advances.temps_le
  | .importNames he => he.advances.fresh.fresh.temps_le

theorem BuildsAll.temps_le {site scope scope' ns p p' ss} :
    BuildsAll site scope ns p ss scope' p' → p.temps ≤ p'.temps
  | .nil => Nat.le_refl _
  | .cons h hs => Nat.le_trans h.temps_le hs.temps_le

end

/-! ## What code assigns -/

theorem assignedInBody_append (ss ts : List Stmt) :
    assignedInBody (ss ++ ts) = assignedInBody ss ++ assignedInBody ts := by
  induction ss with
  | nil => rfl
  | cons s rest ih =>
    rw [cons_append, assignedInBody, assignedInBody, ih, append_assoc]

theorem assignedInBody_orPass (ss : List Stmt) :
    assignedInBody (if ss.isEmpty then [.pass] else ss) = assignedInBody ss := by
  cases ss <;> rfl

/-! ## Blocks -/

/-- Entering a block takes nothing but its name and its body into the table. -/
theorem forall_enterBlock {P : Node.Content → Prop} {Q : Node → Prop} {name body table}
    (htable : ∀ entry ∈ table, P entry.1 ∧ Q entry.2) (hname : P name) (hbody : Q body) :
    ∀ entry ∈ enterBlock name body table, P entry.1 ∧ Q entry.2 := by
  induction table with
  | nil => exact forall_mem_singleton.2 ⟨hname, hbody⟩
  | cons entry rest ih =>
    obtain ⟨hentry, hrest⟩ := forall_mem_cons.1 htable
    unfold enterBlock
    split
    · exact forall_mem_cons.2 ⟨⟨hentry.1, hbody⟩, hrest⟩
    · exact forall_mem_cons.2 ⟨hentry, ih hrest⟩

/-- A block of the tree has the given name. -/
def NamesBlock (n : Node) (c : Node.Content) : Prop :=
  ∃ pos name body, .block pos name body ∈ n.descendants ∧ name.content? = some c

/-- A block of the tree has the given body. -/
def BodyOfBlock (n body : Node) : Prop :=
  ∃ pos name, .block pos name body ∈ n.descendants

/-- The table of blocks holds names and bodies of blocks of the tree. -/
theorem gives_blockTable {n : Node} {table : BlockTable} (h : Gives (blockTable n) p table p') :
    p' = p ∧ ∀ entry ∈ table, NamesBlock n entry.1 ∧ BodyOfBlock n entry.2 := by
  have hblocks : ∀ block ∈ n.blocks, ∃ pos, .block pos block.1 block.2 ∈ n.descendants := by
    intro block hblock
    obtain ⟨d, hd, hmatch⟩ := mem_filterMap.1 hblock
    cases d <;> cases hmatch
    exact ⟨_, hd⟩
  unfold blockTable at h
  generalize n.blocks = blocks at h hblocks
  -- The invariant of the fold: all entries so far come from the tree.
  have hstart : ∀ entry ∈ ([] : BlockTable), NamesBlock n entry.1 ∧ BodyOfBlock n entry.2 :=
    fun _ hentry => nomatch hentry
  generalize ([] : BlockTable) = start at h hstart
  induction blocks generalizing start with
  | nil =>
    rw [foldlM_nil, gives_pure] at h
    obtain ⟨rfl, rfl⟩ := h
    exact ⟨rfl, hstart⟩
  | cons block rest ih =>
    simp only [foldlM_cons, gives_bind, gives_nameOf, gives_demandKey, gives_pure] at h
    obtain ⟨_, _, ⟨c, _, ⟨hc, rfl⟩, _, _, ⟨-, rfl⟩, rfl, rfl⟩, h⟩ := h
    obtain ⟨pos, hblock⟩ := hblocks block mem_cons_self
    have hname : NamesBlock n c := ⟨pos, block.1, block.2, hblock, hc⟩
    have hbody : BodyOfBlock n block.2 := ⟨pos, block.1, hblock⟩
    exact ih (fun block hb => hblocks block (mem_cons_of_mem _ hb)) _ h
      (forall_enterBlock hstart hname hbody)

/-- The statements that hand over to the parent template once one is known. -/
def delegation (child : Bool) : List Stmt :=
  if child then
    [.branch (.compare (.name .parentTemplate) [(.isNot, .const .null)])
      [.ret (.method (.name .parentTemplate) .rootRenderFunc Expr.entryArgs)] []]
  else
    []

@[simp]
theorem assignedInBody_delegation (child : Bool) : assignedInBody (delegation child) = [] := by
  cases child <;> rfl

theorem gives_rootFunction {items f} (h : Gives (rootFunction items) p f p') :
    ∃ ss scope, BuildsAll ⟨true, .output⟩ {} items p ss scope p' ∧
      f = { name := .root, params := entryParams,
            body := [.assign .output (.list []), .assign .parentTemplate (.const .null)] ++
              (ss ++ delegation p'.child) ++ [.ret (.joined .output)] } := by
  simp only [rootFunction, gives_bind, gives_get, gives_pure] at h
  obtain ⟨⟨ss, scope⟩, q, hbody, r, q', ⟨rfl, rfl⟩, rfl, rfl⟩ := h
  refine ⟨ss, scope, buildsAll_of_gives items hbody, ?_⟩
  rw [← append_assoc]
  rfl

theorem gives_blockFunction {name body f} (h : Gives (blockFunction name body) p f p') :
    ∃ ss scope, Builds ⟨false, .output⟩ (Scope.set {} "super" (.localName "super")) body p ss scope
        p' ∧
      f = { name := .blockName name.text, params := entryParams,
            body := [.assign .output (.list []), .assign (.localName "super")
                  (.method (.name .context) .getSuper
                    [.name .env, .ofContent name, .name (.blockName name.text), .name .runtime])] ++
              ss ++ [.ret (.joined .output)] } := by
  simp only [blockFunction, gives_bind, gives_pure] at h
  obtain ⟨⟨ss, scope⟩, q, hbody, rfl, rfl⟩ := h
  exact ⟨ss, scope, builds_of_gives body hbody, rfl⟩

/-- The functions of the blocks of a table, one after the other. -/
inductive BuildsBlocks : BlockTable → Progress → List Script.Function → Progress → Prop where
  | nil {p : Progress} : BuildsBlocks [] p [] p
  | cons {entry rest f fs} {p q p' : Progress} : Gives (blockFunction entry.1 entry.2) p f q →
    BuildsBlocks rest q fs p' → BuildsBlocks (entry :: rest) p (f :: fs) p'

theorem buildsBlocks_of_gives {table : BlockTable} {fs} (h : Gives (blockFunctions table) p fs p') :
    BuildsBlocks table p fs p' := by
  induction table generalizing p fs with
  | nil =>
    simp only [blockFunctions, gives_pure] at h
    obtain ⟨rfl, rfl⟩ := h
    exact .nil
  | cons entry rest ih =>
    simp only [blockFunctions, gives_bind, gives_pure] at h
    obtain ⟨f, q, hf, fs, q', hfs, rfl, rfl⟩ := h
    exact .cons hf (ih hfs)

/-- The functions of blocks are those of the table, in its order. -/
theorem BuildsBlocks.names {table fs} (h : BuildsBlocks table p fs p') :
    fs.map Function.name = table.map (fun entry => .blockName entry.1.text) ∧
      ∀ f ∈ fs, ∃ entry ∈ table, ∃ q q', Gives (blockFunction entry.1 entry.2) q f q' := by
  induction h with
  | nil => exact ⟨rfl, forall_mem_nil _⟩
  | @cons entry _ f _ _ _ _ hf _ ih =>
    have hname : f.name = .blockName entry.1.text := by
      obtain ⟨ss, scope, -, hshape⟩ := gives_blockFunction hf
      rw [hshape]
    refine ⟨by rw [map_cons, map_cons, hname, ih.1], forall_mem_cons.2 ⟨?_, fun g hg => ?_⟩⟩
    · exact ⟨entry, mem_cons_self, _, _, hf⟩
    · obtain ⟨entry', hentry', hgives⟩ := ih.2 g hg
      exact ⟨entry', mem_cons_of_mem _ hentry', hgives⟩

theorem gives_templateModule {n m names} (h : Gives (templateModule n) p (m, names) p') :
    ∃ pos items root table blocks q, n = .root pos items ∧ Gives (rootFunction items) p root q ∧
      Gives (blockTable n) q table q ∧ Gives (blockFunctions table) q blocks p' ∧
      m = ⟨root :: blocks⟩ ∧ names = table.map (·.1) := by
  cases n <;> simp only [templateModule, gives_reject] at h
  simp only [gives_bind, gives_pure, Prod.mk.injEq] at h
  obtain ⟨root, q, hroot, table, q', htable, blocks, q'', hblocks, ⟨rfl, rfl⟩, rfl⟩ := h
  obtain ⟨rfl, -⟩ := gives_blockTable htable
  exact ⟨_, _, root, table, blocks, _, rfl, hroot, htable, hblocks, rfl, rfl⟩

/-- A module comes from the compilation of a whole template. -/
theorem gives_of_compileModule {c c' : Compiler} {tree framed m}
    (h : c.compileModule tree framed = (.ok m, c')) :
    Gives (templateModule tree) c.progress (m, c'.blockNames) c'.progress := by
  unfold Compiler.compileModule at h
  cases hused : c.used with
  | true =>
    simp only [hused, if_true] at h
    cases h
  | false =>
    simp only [hused, Bool.false_eq_true, if_false] at h
    cases tree <;> cases framed <;> try cases h
    case root.false pos items =>
      rcases hrun : (templateModule (.root pos items)).run.run c.progress with ⟨_ | ⟨m', names⟩, q⟩
      · simp only [Bool.false_eq_true, if_false, hrun] at h
        cases h
      · simp only [Bool.false_eq_true, if_false, hrun] at h
        cases h
        exact hrun

end Compile

/-- What is loaded is a compiled module. -/
theorem Compiler.compileModule_of_compile {c c' : Compiler} {tree framed name? file? m}
    (h : c.compile tree framed name? file? = (.ok m, c')) :
    c.compileModule tree framed = (.ok m, c') := by
  unfold compile at h
  rcases hmodule : c.compileModule tree framed with ⟨_ | m', c''⟩
  · simp only [hmodule] at h
    cases h
  · simp only [hmodule] at h
    split at h
    · cases h
    · split at h <;> cases h
      rfl

end Stencil
