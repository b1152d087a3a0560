import Stencil.Proofs.Ledger
import Stencil.Proofs.Making

/-!
# Generated modules are closed

Every expression of a module stands in a function, which may itself be defined inside other
functions. `usesIn` lists the expressions of a body together with the functions around them. What a
scope knows while code is generated is always visible from the functions around that code: it is
bound in one of them. So every identifier that a module reads is visible where it is read, and all
output of a function goes to the buffer of that function.
-/

namespace Stencil

open List

namespace Script

/-! ## Where expressions stand -/

mutual

/-- The expressions in a statement with all their parts, each with the functions around it, the
innermost first. An increment reads what it increments. -/
def Stmt.uses (around : List Function) : Stmt → List (List Function × Expr)
  | .expr e | .ret e | .assign _ e => e.parts.map (around, ·)
  | .increment id e => (.name id :: e.parts).map (around, ·)
  | .branch test body otherwise =>
    test.parts.map (around, ·) ++ usesIn around body ++ usesIn around otherwise
  | .loop _ source body => source.parts.map (around, ·) ++ usesIn around body
  | .define name params captured body =>
    (captured.flatMap (·.2.parts)).map (around, ·) ++
      usesIn (⟨name, params ++ captured.map (·.1), body⟩ :: around) body
  | .pass => []

/-- The expressions in statements with all their parts, each with the functions around it. -/
def usesIn (around : List Function) : List Stmt → List (List Function × Expr)
  | [] => []
  | s :: rest => s.uses around ++ usesIn around rest

end

@[simp]
theorem usesIn_append (around : List Function) (ss ts : List Stmt) :
    usesIn around (ss ++ ts) = usesIn around ss ++ usesIn around ts := by
  induction ss with
  | nil => rfl
  | cons s rest ih => simp [usesIn, ih]

/-- The buffer of the innermost of the given functions: the functions of a module have one, and the
functions defined inside them another. -/
def bufferOf (around : List Function) : Ident :=
  if around.length = 1 then .output else .macroOutput

/-- The identifier is bound in one of the functions around, or given to all of them. -/
def Visible (given : List Ident) (around : List Function) (id : Ident) : Prop :=
  (∃ f ∈ around, id ∈ f.bound) ∨ id ∈ given

section

variable {given : List Ident} {around : List Function}

theorem Visible.cons {id} (h : Visible given around id) (f : Function) :
    Visible given (f :: around) id := by
  rcases h with ⟨g, hg, hid⟩ | hid
  · exact .inl ⟨g, mem_cons_of_mem _ hg, hid⟩
  · exact .inr hid

theorem Visible.of_bound {id f} (h : id ∈ f.bound) : Visible given (f :: around) id :=
  .inl ⟨f, mem_cons_self, h⟩

end

/-- The expression, which stands inside the given functions, reads a visible identifier if it reads
one, and appends to the right buffer if it appends. -/
def InPlace (given : List Ident) (around : List Function) : Expr → Prop
  | .name id => Visible given around id
  | .attr object .append => object = .name (bufferOf around)
  | _ => True

/-- A function begins with an empty buffer, and what it returns in the end are the texts in it. -/
def Function.Collects (f : Function) (buffer : Ident) : Prop :=
  ∃ ss, f.body = .assign buffer (.list []) :: ss ++ [.ret (.joined buffer)]

/-- The identifiers that every function of a module can read without binding them. -/
def Module.given (m : Module) : List Ident :=
  m.functions.map Function.name ++ [.len, .list, .range]

/-- A module that reads only what is bound where it is visible, and in which every function collects
its own output. -/
structure Module.Closed (m : Module) : Prop where
  /-- An identifier that is read is bound in the function where it is read or in one around it, or
  is a function of the module, or is one of those that stand for fixed functions. -/
  reads : ∀ f ∈ m.functions, ∀ around id, (around, .name id) ∈ usesIn [f] f.body →
    Visible m.given around id
  /-- What is appended to is the buffer of the function. -/
  appends : ∀ f ∈ m.functions, ∀ around object,
    (around, .attr object .append) ∈ usesIn [f] f.body → object = .name (bufferOf around)
  /-- The functions of the module collect their output. -/
  collects : ∀ f ∈ m.functions, f.Collects .output
  /-- So do the functions defined inside them. -/
  innerCollects : ∀ f ∈ m.functions, ∀ g ∈ functionsIn f.body, g.Collects .macroOutput

end Script

namespace Compile

open Script

/-! ## Generated code stays in place -/

section

attribute [local simp] usesIn Stmt.uses Stmt.emit Stmt.pushFrame Stmt.popFrame Stmt.frameSet
  Stmt.setVariable Stmt.addExport Expr.method Expr.helper Expr.joined Expr.text Expr.int
  Expr.entryArgs Expr.parts partsOf partsOfEntries partsOfOperands InPlace or_imp forall_and
  assignedInBody assignedInBody_append Stmt.assigned Target.assigned Expr.assigned assignedIn
  assignedInEntries

variable {given : List Ident} {around : List Script.Function}

/-- All expressions of the statements are in place. -/
def InPlaceIn (given : List Ident) (around : List Script.Function) (ss : List Stmt) : Prop :=
  ∀ u ∈ usesIn around ss, InPlace given u.1 u.2

variable {ss ts : List Stmt} {scope : Scope Ident} {p p' : Progress} {id : Ident}
  {f : Script.Function}

theorem inPlaceIn_append :
    InPlaceIn given around (ss ++ ts) ↔ InPlaceIn given around ss ∧ InPlaceIn given around ts := by
  unfold InPlaceIn
  rw [usesIn_append, forall_mem_append]

theorem inPlaceIn_cons {s} :
    InPlaceIn given around (s :: ss) ↔ InPlaceIn given around [s] ∧ InPlaceIn given around ss :=
  @inPlaceIn_append _ _ [s] ss

/-- The functions around generated code, at a site: the arguments of an entry point are visible from
it, and so are the buffer of the site and, in the root function, the parent template. -/
structure Around (given : List Ident) (site : Site) (around : List Script.Function) : Prop where
  entry : ∀ id ∈ entryParams, Visible given around id
  fixed : ∀ id ∈ [Ident.len, .list, .range], Visible given around id
  nonempty : around ≠ []
  buffer : site.buffer = bufferOf around
  collected : Visible given around site.buffer
  parent : site.inRoot = true → Visible given around .parentTemplate

theorem Emits.inPlace {n e} (h : Emits scope n p e p')
    (hentry : ∀ id ∈ entryParams, Visible given around id)
    (hscope : scope.Only (Visible given around))
    (hown : ∀ id ∈ e.assigned, Visible given around id) :
    ∀ x ∈ e.parts, InPlace given around x := by
  intro x hx
  unfold InPlace
  split
  · rename_i id
    rcases h.pieces.name id hx with hid | ⟨y, hy⟩ | hbound
    · exact hentry id hid
    · exact hscope y id hy
    · exact hown id (e.mem_assigned_iff.2 hbound)
  · exact absurd rfl (h.pieces.silent _ _ hx).1
  · trivial

theorem inPlaceIn_flatMap {α : Type} {f} {as : List α}
    (h : ∀ a ∈ as, InPlaceIn given around (f a)) : InPlaceIn given around (as.flatMap f) := by
  induction as with
  | nil => exact forall_mem_nil _
  | cons a rest ih =>
    rw [flatMap_cons, inPlaceIn_append]
    exact ⟨h a mem_cons_self, ih fun a ha => h a (mem_cons_of_mem _ ha)⟩

theorem inPlace_ofContent (c : Node.Content) : ∀ x ∈ (Expr.ofContent c).parts,
    InPlace given around x := by
  cases c <;> simp [Expr.ofContent]

variable {site : Site} {e : Expr} {ss : List Stmt}

theorem inPlace_name (hid : Visible given around id) :
    ∀ x ∈ (Expr.name id).parts, InPlace given around x := by
  simpa using hid

theorem inPlaceIn_assign (he : ∀ x ∈ e.parts, InPlace given around x) :
    InPlaceIn given around [.assign id e] := by
  simpa [InPlaceIn] using he

namespace Around

variable (h : Around given site around)

include h

theorem env : Visible given around .env := h.entry _ (by decide)

theorem context : Visible given around .context := h.entry _ (by decide)

theorem frame : Visible given around .frame := h.entry _ (by decide)

theorem runtime : Visible given around .runtime := h.entry _ (by decide)

theorem len : Visible given around .len := h.fixed _ (by decide)

theorem list : Visible given around .list := h.fixed _ (by decide)

theorem range : Visible given around .range := h.fixed _ (by decide)

theorem emit (he : ∀ x ∈ e.parts, InPlace given around x) :
    InPlaceIn given around [.emit site.buffer e] := by
  simpa [InPlaceIn, ← h.buffer, h.collected] using he

theorem helper {field} (hfield : field ≠ .append) (he : ∀ x ∈ e.parts, InPlace given around x) :
    ∀ x ∈ (Expr.helper field [e]).parts, InPlace given around x := by
  simpa [hfield, h.runtime] using he

theorem moduleOf (he : ∀ x ∈ e.parts, InPlace given around x) :
    ∀ x ∈ (moduleOf e).parts, InPlace given around x := by
  simpa [Compile.moduleOf, h.env] using he

variable {id : Ident} {name : String} {child : Bool}

theorem inclusion (hid : Visible given around id) (he : ∀ x ∈ e.parts, InPlace given around x) :
    InPlaceIn given around [.assign id (.method (.name .env) .getTemplate [e]),
      .emit site.buffer (.rendered id)] := by
  refine inPlaceIn_cons.2 ⟨?_, h.emit ?_⟩
  · simpa [InPlaceIn, h.env] using he
  · simp [hid, h.context, h.frame]

theorem inFrame (hss : InPlaceIn given around ss) :
    InPlaceIn given around ([.pushFrame] ++ ss ++ [.popFrame]) := by
  refine inPlaceIn_append.2 ⟨inPlaceIn_append.2 ⟨?_, hss⟩, ?_⟩
  · simp [InPlaceIn, h.frame]
  · simp [InPlaceIn, h.frame]

theorem sequenceLoop {index arr length value}
    (hids : ∀ id ∈ [index, arr, length, value], Visible given around id)
    (he : ∀ x ∈ e.parts, InPlace given around x) (hss : InPlaceIn given around ss) :
    InPlaceIn given around (sequenceLoop name index arr length value e ss) := by
  simp only [forall_mem_cons, not_mem_nil, false_imp_iff, implies_true, and_true] at hids
  unfold InPlaceIn at hss ⊢
  simpa [Compile.sequenceLoop, sequenceRound, sequenceRecord, hids, h.frame, h.len, h.list, h.range]
    using And.intro he hss

theorem pairLoop {keyName valueName index arr key value}
    (hids : ∀ id ∈ [index, arr, key, value], Visible given around id)
    (he : ∀ x ∈ e.parts, InPlace given around x) (hss : InPlaceIn given around ss) :
    InPlaceIn given around (pairLoop keyName valueName index arr key value e ss) := by
  simp only [forall_mem_cons, not_mem_nil, false_imp_iff, implies_true, and_true] at hids
  unfold InPlaceIn at hss ⊢
  simpa [Compile.pairLoop, pairRound, pairRecord, hids, h.frame, h.runtime] using And.intro he hss

theorem setVariable (hid : Visible given around id) (name : String) :
    InPlaceIn given around [.setVariable name (.name id)] := by
  simp [InPlaceIn, hid, h.context]

theorem addExport (name : String) : InPlaceIn given around [.addExport name] := by
  simp [InPlaceIn, h.context]

theorem store (hid : Visible given around id) (name : String) :
    InPlaceIn given around (store id name) := by
  unfold Compile.store
  split
  · exact h.setVariable hid name
  · exact inPlaceIn_cons.2 ⟨h.setVariable hid name, h.addExport name⟩

theorem publication {c} (hc : Visible given around (.localName c.text)) :
    InPlaceIn given around (publication child c) := by
  unfold Compile.publication
  split
  · split
    · exact forall_mem_nil _
    · refine inPlaceIn_append.2 ⟨?_, h.setVariable hc _⟩
      split
      · exact forall_mem_nil _
      · exact h.addExport _
  · exact forall_mem_nil _

theorem publishImport (hname : Visible given around (.localName name)) :
    InPlaceIn given around (publishImport child name) := by
  unfold Compile.publishImport
  split
  · exact forall_mem_nil _
  · exact h.setVariable hname _

theorem importName {template exports bound} (htemplate : Visible given around template)
    (hexports : Visible given around exports) (hbound : Visible given around (.localName bound)) :
    InPlaceIn given around (importName child template exports name bound) := by
  refine inPlaceIn_cons.2 ⟨?_, h.publishImport hbound⟩
  simp [InPlaceIn, htemplate, hexports, h.runtime]

theorem blockReference (c : Node.Content) : InPlaceIn given around [blockReference site c] := by
  have hrender := h.emit (e := .call (.method (.name .context) .getBlock [.ofContent c])
      Expr.entryArgs) (by
    simpa [h.env, h.context, h.frame, h.runtime] using inPlace_ofContent c)
  unfold Compile.blockReference
  by_cases hroot : site.inRoot = true
  · rw [if_pos hroot]
    unfold InPlaceIn at hrender ⊢
    simpa [h.parent hroot] using hrender
  · rw [if_neg hroot]
    exact hrender

theorem inheritance {key} (hparent : Visible given around .parentTemplate)
    (hkey : Visible given around key) (he : ∀ x ∈ e.parts, InPlace given around x) :
    InPlaceIn given around (inheritance e key) := by
  simpa [InPlaceIn, Compile.inheritance, hkey, hparent, h.env, h.context] using he

/-- Where the function of a macro is defined, its code has that function around it. -/
theorem macroDefinition {c names es} (hmac : Visible given around (.macroName c.text))
    (hes : ∀ x ∈ partsOf es, InPlace given around x)
    (hbody : InPlaceIn given (macroFunction c names ss :: around) (macroFunction c names ss).body) :
    InPlaceIn given around (macroDefinition c names es ss) := by
  have hdefine : InPlaceIn given around [.define (.macroName c.text)
      (names.map fun x => .localName x.text) [(.frame, .name .frame)]
      (macroFunction c names ss).body] := by
    refine forall_mem_append.2 ⟨forall_mem_append.2 ⟨?_, hbody⟩, forall_mem_nil _⟩
    simp [h.frame]
  have hwrapper : ∀ x ∈ (Expr.helper .wrapMacro [.name (.macroName c.text), .ofContent c, .list es,
      .const (.bool false), .const (.bool false), .const (.bool false)]).parts,
      InPlace given around x := by
    simpa [hmac, h.runtime] using And.intro (inPlace_ofContent c) hes
  exact inPlaceIn_append.2 ⟨h.inFrame hdefine, inPlaceIn_assign hwrapper⟩

end Around

theorem inPlaceIn_branch (he : ∀ x ∈ e.parts, InPlace given around x)
    (hss : InPlaceIn given around ss) (hts : InPlaceIn given around ts) :
    InPlaceIn given around [.branch e (if ss.isEmpty then [.pass] else ss) ts] := by
  have hbody : InPlaceIn given around (if ss.isEmpty then [.pass] else ss) := by
    cases ss with
    | nil => exact forall_mem_nil _
    | cons s rest => exact hss
  unfold InPlaceIn at hbody hts ⊢
  simp only [usesIn, Stmt.uses, append_nil, forall_mem_append, forall_mem_map]
  exact ⟨⟨he, hbody⟩, hts⟩

theorem BuildsOutputs.inPlace {items} (h : BuildsOutputs scope site.buffer items p ss p')
    (haround : Around given site around) (hscope : scope.Only (Visible given around))
    (hown : ∀ id ∈ assignedInBody ss, Visible given around id) : InPlaceIn given around ss := by
  induction h with
  | nil => exact forall_mem_nil _
  | text _ ih =>
    split at hown
    · rename_i hempty
      rw [if_pos hempty]
      exact ih hown
    · rename_i hempty
      rw [if_neg hempty]
      refine inPlaceIn_cons.2 ⟨haround.emit ?_, ih hown⟩
      simp
  | @expr n rest p q p' e ss _ he _ ih =>
    obtain ⟨hown, hrest⟩ : (∀ id ∈ e.assigned, Visible given around id) ∧
        ∀ id ∈ assignedInBody ss, Visible given around id := by
      simpa using hown
    have hparts := he.inPlace haround.entry hscope hown
    exact inPlaceIn_cons.2 ⟨haround.emit (haround.helper (by decide) hparts), ih hrest⟩

theorem BuildsSignature.inPlace {params es} (h : BuildsSignature scope params p es p')
    (haround : Around given site around) (hscope : scope.Only (Visible given around))
    (hown : ∀ id ∈ assignedIn es, Visible given around id) :
    ∀ x ∈ partsOf es, InPlace given around x := by
  induction h with
  | nil => exact forall_mem_nil _
  | @required pos name c rest p p' es _ _ ih =>
    have hrest := ih (by simpa using hown)
    simpa using And.intro (inPlace_ofContent c) hrest
  | @optional pos name default c rest p q p' e es _ he _ ih =>
    obtain ⟨hown, hrest⟩ : (∀ id ∈ e.assigned, Visible given around id) ∧
        ∀ id ∈ assignedIn es, Visible given around id := by
      simpa using hown
    have hparts := he.inPlace haround.entry hscope hown
    simpa [and_assoc] using And.intro (inPlace_ofContent c) (And.intro hparts (ih hrest))

theorem mem_bound_macroFunction_param {c x names} (h : x ∈ names) :
    .localName x.text ∈ (macroFunction c names ss).bound := by
  have hparam : Ident.localName x.text ∈ names.map fun p => .localName p.text :=
    mem_map_of_mem h
  simp [Function.bound, macroFunction, ownedBy, hparam]

theorem mem_bound_macroFunction_body {c names} (h : id ∈ assignedInBody ss) :
    id ∈ (macroFunction c names ss).bound := by
  simp [Function.bound, macroFunction, ownedBy, h]

theorem Around.inMacro (h : Around given site around) (c : Node.Content)
    (names : List Node.Content) (ss : List Stmt) :
    Around given { site with buffer := .macroOutput } (macroFunction c names ss :: around) where
  entry id hid := (h.entry id hid).cons _
  fixed id hid := (h.fixed id hid).cons _
  buffer := by simp [bufferOf, h.nonempty]
  collected := .of_bound (by simp [Function.bound, macroFunction, ownedBy])
  nonempty := cons_ne_nil _ _
  parent hroot := (h.parent hroot).cons _

theorem Around.body (h : Around given site around) {buffer} (hbuffer : site.buffer = buffer)
    (hss : InPlaceIn given around ss) :
    InPlaceIn given around ([.assign buffer (.list [])] ++ ss ++ [.ret (.joined buffer)]) := by
  subst hbuffer
  refine inPlaceIn_append.2 ⟨inPlaceIn_append.2 ⟨?_, hss⟩, ?_⟩
  · simp [InPlaceIn]
  · simp [InPlaceIn, h.collected]

/-! ### What the building blocks bind -/

section

variable {P : Ident → Prop} {ts : List Stmt}

theorem forall_assigned_cons {s} : (∀ id ∈ assignedInBody (s :: ss), P id) ↔
      (∀ id ∈ s.assigned, P id) ∧ ∀ id ∈ assignedInBody ss, P id :=
  forall_mem_append

theorem forall_assigned_append : (∀ id ∈ assignedInBody (ss ++ ts), P id) ↔
      (∀ id ∈ assignedInBody ss, P id) ∧ ∀ id ∈ assignedInBody ts, P id := by
  rw [assignedInBody_append, forall_mem_append]

theorem forall_assigned_branch
    (h : ∀ id ∈ assignedInBody [.branch e (if ss.isEmpty then [.pass] else ss) ts], P id) :
    (∀ id ∈ e.assigned, P id) ∧ (∀ id ∈ assignedInBody ss, P id) ∧
      ∀ id ∈ assignedInBody ts, P id := by
  simp only [assignedInBody, Stmt.assigned, assignedInBody_orPass, append_nil,
    forall_mem_append] at h
  exact ⟨h.1.1, h.1.2, h.2⟩

theorem forall_assigned_sequenceLoop {name index arr length value}
    (h : ∀ id ∈ assignedInBody ([.pushFrame] ++ sequenceLoop name index arr length value e ss ++
      [.popFrame]), P id) : (∀ id ∈ [index, arr, length, value], P id) ∧ (∀ id ∈ e.assigned, P id) ∧
      ∀ id ∈ assignedInBody ss, P id := by
  simp [sequenceLoop, sequenceRound, sequenceRecord] at h
  grind

theorem forall_assigned_pairLoop {keyName valueName index arr key value}
    (h : ∀ id ∈ assignedInBody
      ([.pushFrame] ++ pairLoop keyName valueName index arr key value e ss ++
      [.popFrame]), P id) : (∀ id ∈ [index, arr, key, value], P id) ∧ (∀ id ∈ e.assigned, P id) ∧
      ∀ id ∈ assignedInBody ss, P id := by
  simp [pairLoop, pairRound, pairRecord] at h
  grind

theorem forall_assigned_macroDefinition {c names es}
    (h : ∀ id ∈ assignedInBody (macroDefinition c names es ss), P id) :
    P (.macroName c.text) ∧ P (.localName c.text) ∧ ∀ id ∈ assignedIn es, P id := by
  simp [macroDefinition] at h
  grind

theorem forall_assigned_importNames {child template exports} {names : List (String × String)}
    (h : ∀ id ∈ assignedInBody (names.flatMap fun (name, bound) =>
      importName child template exports name bound), P id) : ∀ i ∈ names, P (.localName i.2) := by
  induction names with
  | nil => exact forall_mem_nil _
  | cons i rest ih =>
    rw [flatMap_cons, forall_assigned_append] at h
    refine forall_mem_cons.2 ⟨h.1 _ ?_, ih h.2⟩
    simp [importName]

end

mutual

/-- The code of a statement is in place, and what the scope after it knows is visible. -/
theorem Builds.inPlace {site} {scope scope' : Scope Ident} {n : Node} {p p' ss around} :
    Builds site scope n p ss scope' p' →
    Around given site around → scope.Only (Visible given around) →
    (∀ id ∈ assignedInBody ss, Visible given around id) →
    InPlaceIn given around ss ∧ scope'.Only (Visible given around)
  | .text, ha, hs, _ => by
    refine ⟨?_, hs⟩
    split
    · exact forall_mem_nil _
    · exact ha.emit (by simp)
  | .output h, ha, hs, hown => ⟨h.inPlace ha hs hown, hs⟩
  | .sequence h, ha, hs, hown => h.inPlace ha hs hown
  | .conditional he h, ha, hs, hown => by
    obtain ⟨hown, hbody, -⟩ := forall_assigned_branch hown
    obtain ⟨hss, hs'⟩ := h.inPlace ha hs hbody
    exact ⟨inPlaceIn_branch (he.inPlace ha.entry hs hown) hss (forall_mem_nil _), hs'⟩
  | .alternative he h h', ha, hs, hown => by
    obtain ⟨hown, hbody, hotherwise⟩ := forall_assigned_branch hown
    obtain ⟨hss, hs'⟩ := h.inPlace ha hs hbody
    obtain ⟨hss', hs''⟩ := h'.inPlace ha hs' hotherwise
    exact ⟨inPlaceIn_branch (he.inPlace ha.entry hs hown) hss hss', hs''⟩
  | .sequenceLoop _ he h, ha, hs, hown => by
    obtain ⟨hids, hown, hbody⟩ := forall_assigned_sequenceLoop hown
    obtain ⟨hss, -⟩ := h.inPlace ha (hs.push.set _ (hids _ (by simp))) hbody
    exact ⟨ha.inFrame (ha.sequenceLoop hids (he.inPlace ha.entry hs.push hown) hss), hs⟩
  | .pairLoop _ he h, ha, hs, hown => by
    obtain ⟨hids, hown, hbody⟩ := forall_assigned_pairLoop hown
    obtain ⟨hss, -⟩ := h.inPlace ha
      ((hs.push.set _ (hids _ (by simp))).set _ (hids _ (by simp))) hbody
    exact ⟨ha.inFrame (ha.pairLoop hids (he.inPlace ha.entry hs.push hown) hss), hs⟩
  | .assign he _, ha, hs, hown => by
    obtain ⟨hown, -⟩ := forall_assigned_cons.1 hown
    obtain ⟨htemp, hown⟩ := forall_mem_cons.1 hown
    exact ⟨inPlaceIn_cons.2 ⟨inPlaceIn_assign (he.inPlace ha.entry hs hown),
      inPlaceIn_flatMap fun name _ => ha.store htemp name⟩, hs⟩
  | @Builds.macroDef _ _ _ _ _ _ _ c names _ _ _ ss _ _ _ h hes, ha, hs, hown => by
    obtain ⟨hmac, hlocal, hown⟩ := forall_assigned_macroDefinition (forall_assigned_append.1 hown).1
    -- the body is compiled in a scope that also knows the parameters
    have hinner : (names.foldl bindLocal scope.push).Only
        (Visible given (macroFunction c names ss :: around)) := by
      refine .foldl (fun x hx _ hscope => only_bindLocal hscope (.of_bound ?_))
        (hs.push.mono fun id hid => hid.cons _)
      exact mem_bound_macroFunction_param hx
    obtain ⟨hss, -⟩ := h.inPlace (ha.inMacro c names ss) hinner fun id hid =>
      .of_bound (mem_bound_macroFunction_body hid)
    refine ⟨inPlaceIn_append.2 ⟨ha.macroDefinition hmac (hes.inPlace ha hs hown) ?_,
      ha.publication hlocal⟩, only_bindLocal hs hlocal⟩
    exact (ha.inMacro c names ss).body rfl hss
  | .block _, ha, hs, _ => ⟨ha.blockReference _, hs⟩
  | .inherit _ he, ha, hs, hown => by
    simp [inheritance] at hown
    obtain ⟨hparent, hown, hkey⟩ := hown
    exact ⟨ha.inheritance hparent hkey (he.inPlace ha.entry hs hown), hs⟩
  | .inclusion he, ha, hs, hown => by
    obtain ⟨hown, -⟩ := forall_assigned_cons.1 hown
    simp at hown
    exact ⟨ha.inclusion hown.1 (he.inPlace ha.entry hs hown.2), hs⟩
  | .importAll he, ha, hs, hown => by
    obtain ⟨hown, -⟩ := forall_assigned_cons.1 hown
    simp [moduleOf] at hown
    obtain ⟨htarget, hown⟩ := hown
    have hmodule := ha.moduleOf (he.inPlace ha.entry hs hown)
    exact ⟨inPlaceIn_cons.2 ⟨inPlaceIn_assign hmodule, ha.publishImport htarget⟩, hs.set _ htarget⟩
  | .importNames he, ha, hs, hown => by
    obtain ⟨hown, hbound⟩ := forall_assigned_append.1 hown
    have hlocal := forall_assigned_importNames hbound
    simp [moduleOf] at hown
    obtain ⟨htemplate, hown, hexports⟩ := hown
    have hmodule := ha.moduleOf (inPlace_name htemplate)
    refine ⟨inPlaceIn_append.2 ⟨inPlaceIn_cons.2 ⟨inPlaceIn_assign (he.inPlace ha.entry hs hown),
      inPlaceIn_assign hmodule⟩, inPlaceIn_flatMap fun i hi => ?_⟩, ?_⟩
    · exact ha.importName htemplate hexports (hlocal i hi)
    · exact .foldl (fun i hi _ hscope => hscope.set _ (hlocal i hi)) hs

theorem BuildsAll.inPlace {site scope scope' ns p p' ss around} :
    BuildsAll site scope ns p ss scope' p' →
    Around given site around → scope.Only (Visible given around) →
    (∀ id ∈ assignedInBody ss, Visible given around id) →
    InPlaceIn given around ss ∧ scope'.Only (Visible given around)
  | .nil, _, hs, _ => ⟨forall_mem_nil _, hs⟩
  | .cons h hrest, ha, hs, hown => by
    rw [assignedInBody_append, forall_mem_append] at hown
    obtain ⟨hss, hs'⟩ := h.inPlace ha hs hown.1
    obtain ⟨hss', hs''⟩ := hrest.inPlace ha hs' hown.2
    exact ⟨inPlaceIn_append.2 ⟨hss, hss'⟩, hs''⟩

end

/-! ## Functions defined inside others collect their output -/

/-- All functions defined in the statements collect their output. -/
def CollectsIn (ss : List Stmt) : Prop :=
  ∀ f ∈ functionsIn ss, f.Collects .macroOutput

theorem collectsIn_append : CollectsIn (ss ++ ts) ↔ CollectsIn ss ∧ CollectsIn ts := by
  unfold CollectsIn
  rw [functionsIn_append, forall_mem_append]

theorem CollectsIn.of_nil (h : functionsIn ss = []) : CollectsIn ss := by
  unfold CollectsIn
  rw [h]
  exact forall_mem_nil _

/-- The functions in made code collect their output: they are those of macros. -/
theorem collectsIn_of_made {κ buffer bound} (h : Made κ buffer bound ss) : CollectsIn ss := by
  induction h with
  | nil => exact .of_nil rfl
  | append _ _ ih ih' => exact collectsIn_append.2 ⟨ih, ih'⟩
  | step hs => cases hs <;> exact .of_nil rfl
  | frameSet | inheritance => exact .of_nil rfl
  | branch _ _ _ ih ih' =>
    rw [CollectsIn, functionsIn, functionsIn, append_nil, Stmt.functions]
    exact forall_mem_append.2 ⟨ih, ih'⟩
  | loop _ _ _ ih =>
    rw [CollectsIn, functionsIn, functionsIn, append_nil, Stmt.functions]
    exact ih
  | define _ _ _ ih =>
    refine collectsIn_append.2 ⟨collectsIn_append.2 ⟨.of_nil rfl, ?_⟩, .of_nil rfl⟩
    rw [CollectsIn, functionsIn, functionsIn, append_nil, Stmt.functions]
    refine forall_mem_cons.2 ⟨⟨_, rfl⟩, ?_⟩
    exact collectsIn_append.2 ⟨ih, .of_nil rfl⟩
  | framed _ _ ih =>
    exact collectsIn_append.2 ⟨collectsIn_append.2 ⟨.of_nil rfl, ih⟩, .of_nil rfl⟩

/-- Makings without a condition. -/
def freeMakings : Makings where
  var _ := True
  expr _ := True

theorem fits_free (p : Progress) (ns : List Node) : Fits freeMakings p ns where
  known _ := trivial
  emits _ _ _ _ := trivial
  names _ _ _ := ⟨trivial, trivial⟩
  block _ _ := trivial
  loop _ _ := trivial
  inherits _ _ _ := trivial

theorem Builds.collects {site scope' n} (h : Builds site scope n p ss scope' p') : CollectsIn ss :=
  collectsIn_of_made ((h.made (fits_free _ _) (fun _ _ _ => trivial) fun _ _ _ => trivial).1 [])

theorem BuildsAll.collects {site scope' ns} (h : BuildsAll site scope ns p ss scope' p') :
    CollectsIn ss :=
  collectsIn_of_made ((h.made (fits_free _ _) (fun _ _ _ => trivial) fun _ _ _ => trivial).1 [])

/-! ## The functions of a module -/

/-- What is known of an entry function of a module. -/
structure ClosedEntry (given : List Ident) (f : Script.Function) : Prop where
  inPlace : InPlaceIn given [f] f.body
  collects : f.Collects .output
  innerCollects : CollectsIn f.body

theorem visible_entryParam (hparams : f.params = entryParams) (hid : id ∈ entryParams) :
    Visible given [f] id :=
  .of_bound (by simp [Function.bound, ownedBy, hparams, hid])

theorem visible_assigned (hid : id ∈ assignedInBody f.body) : Visible given [f] id :=
  .of_bound (by simp [Function.bound, ownedBy, hid])

theorem around_entry (hfixed : ∀ id ∈ [Ident.len, .list, .range], id ∈ given)
    (hparams : f.params = entryParams) (hbuffer : .output ∈ assignedInBody f.body) (inRoot : Bool)
    (hparent : inRoot = true → .parentTemplate ∈ assignedInBody f.body) :
    Around given ⟨inRoot, .output⟩ [f] where
  entry _ hid := visible_entryParam hparams hid
  fixed id hid := .inr (hfixed id hid)
  nonempty := cons_ne_nil _ _
  buffer := rfl
  collected := visible_assigned hbuffer
  parent hroot := visible_assigned (hparent hroot)

theorem ClosedEntry.of_body (h : Around given site [f]) (hbuffer : site.buffer = .output)
    (hbody : f.body = [.assign .output (.list [])] ++ ss ++ [.ret (.joined .output)])
    (hss : InPlaceIn given [f] ss) (hcollects : CollectsIn ss) : ClosedEntry given f where
  inPlace := hbody ▸ h.body hbuffer hss
  collects := ⟨ss, hbody⟩
  innerCollects := by
    rw [hbody]
    exact collectsIn_append.2 ⟨collectsIn_append.2 ⟨.of_nil rfl, hcollects⟩, .of_nil rfl⟩

theorem inPlaceIn_delegation (h : Around given site around) (hroot : site.inRoot = true)
    (child : Bool) : InPlaceIn given around (delegation child) := by
  unfold delegation
  split
  · simp [InPlaceIn, h.parent hroot, h.env, h.context, h.frame, h.runtime]
  · exact forall_mem_nil _

theorem collectsIn_delegation (child : Bool) : CollectsIn (delegation child) := by
  unfold delegation
  split
  · exact .of_nil rfl
  · exact .of_nil rfl

theorem closedEntry_rootFunction {items} (h : Gives (rootFunction items) p f p')
    (hfixed : ∀ id ∈ [Ident.len, .list, .range], id ∈ given) : ClosedEntry given f := by
  obtain ⟨ss, scope, hbuilds, hf⟩ := gives_rootFunction h
  have hown : assignedInBody f.body =
      .output :: .parentTemplate ::
        (assignedInBody ss ++ assignedInBody (delegation p'.child)) := by
    rw [hf]
    simp
  have haround : Around given ⟨true, .output⟩ [f] :=
    around_entry hfixed (by rw [hf]) (by simp [hown]) true fun _ => by simp [hown]
  obtain ⟨hplace, -⟩ := hbuilds.inPlace haround .empty fun id hid =>
    visible_assigned (by simp [hown, hid])
  have hbody : f.body = [.assign .output (.list [])] ++
      ([.assign .parentTemplate (.const .null)] ++ (ss ++ delegation p'.child)) ++
      [.ret (.joined .output)] := by
    rw [hf]
    rfl
  refine .of_body haround rfl hbody (inPlaceIn_append.2 ⟨?_, ?_⟩) (collectsIn_append.2
    ⟨.of_nil rfl, collectsIn_append.2 ⟨hbuilds.collects, collectsIn_delegation _⟩⟩)
  · exact inPlaceIn_assign (by simp)
  · exact inPlaceIn_append.2 ⟨hplace, inPlaceIn_delegation haround rfl _⟩

theorem closedEntry_blockFunction {name body} (h : Gives (blockFunction name body) p f p')
    (hfixed : ∀ id ∈ [Ident.len, .list, .range], id ∈ given)
    (hname : .blockName name.text ∈ given) : ClosedEntry given f := by
  obtain ⟨ss, scope, hbuilds, hf⟩ := gives_blockFunction h
  have hown : assignedInBody f.body = .output :: .localName "super" :: assignedInBody ss := by
    rw [hf]
    simp
  have haround : Around given ⟨false, .output⟩ [f] :=
    around_entry hfixed (by rw [hf]) (by simp [hown]) false Bool.noConfusion
  have hscope : (Scope.set {} "super" (.localName "super")).Only (Visible given [f]) :=
    Scope.Only.empty.set _ (visible_assigned (by simp [hown]))
  obtain ⟨hplace, -⟩ := hbuilds.inPlace haround hscope fun id hid =>
    visible_assigned (by simp [hown, hid])
  refine .of_body haround rfl (by rw [hf]; rfl) (inPlaceIn_cons.2 ⟨inPlaceIn_assign ?_, hplace⟩)
    hbuilds.collects
  have hself : Visible given [f] (.blockName name.text) := .inr hname
  simpa [hself, haround.env, haround.context, haround.runtime] using inPlace_ofContent name

end

end Compile

open Script

/-- Every module that a compiler gives is closed. -/
theorem compileModule_closed {c c' : Compiler} {tree : Node} {framed : Bool} {m : Module}
    (h : c.compileModule tree framed = (.ok m, c')) : m.Closed := by
  have hgives := Compile.gives_of_compileModule h
  obtain ⟨pos, items, root, table, blocks, q, -, hroot, -, hblocks, hm, -⟩ :=
    Compile.gives_templateModule hgives
  obtain ⟨hnames, hall⟩ := (Compile.buildsBlocks_of_gives hblocks).names
  have hfunctions : m.functions = root :: blocks := by rw [hm]
  have hfixed : ∀ id ∈ [Ident.len, .list, .range], id ∈ m.given :=
    fun id hid => List.mem_append_right _ hid
  have hentries : ∀ f ∈ m.functions, Compile.ClosedEntry m.given f := by
    intro f hf
    rw [hfunctions, List.mem_cons] at hf
    rcases hf with rfl | hf
    · exact Compile.closedEntry_rootFunction hroot hfixed
    · obtain ⟨entry, hentry, q, q', hblock⟩ := hall f hf
      refine Compile.closedEntry_blockFunction hblock hfixed ?_
      have hname : Ident.blockName entry.1.text ∈ blocks.map Function.name := by
        rw [hnames]
        exact List.mem_map_of_mem hentry
      refine List.mem_append_left _ ?_
      rw [hfunctions]
      exact List.mem_cons_of_mem _ hname
  exact
    { reads := fun f hf around id hid => (hentries f hf).inPlace _ hid
      appends := fun f hf around object hid => (hentries f hf).inPlace _ hid
      collects := fun f hf => (hentries f hf).collects
      innerCollects := fun f hf => (hentries f hf).innerCollects }

/-- A macro inside a macro that reads a parameter of the outer one, a call of the outer macro in a
loop, and a block. -/
theorem nested_macros_closed :
    let pos : Position := {}
    let tree : Node := .root pos [
      .macroDef pos (.symbol pos "outer") [.param pos (.symbol pos "x") none] (.sequence pos [
          .macroDef pos (.symbol pos "inner") [] (.output pos [.symbol pos "x"]),
          .output pos [.call pos (.symbol pos "inner") none]]),
      .loop pos (.symbol pos "y") (.symbol pos "ys")
        (.output pos [.call pos (.symbol pos "outer") (some [.symbol pos "y"])]),
      .block pos (.symbol pos "b") (.output pos [.call pos (.symbol pos "super") none])]
    ∃ m c, ({} : Compiler).compileModule tree false = (.ok m, c) ∧
      m.functions.map (·.name) = [.root, .blockName "b"] ∧
      (m.functions.flatMap fun f => functionsIn f.body).map (·.name) =
        [.macroName "outer", .macroName "inner"] ∧ m.Closed := by
  intro pos tree
  obtain ⟨m, c, hm, hnames, hinner⟩ : ∃ m c, ({} : Compiler).compileModule tree false = (.ok m, c) ∧
      m.functions.map (·.name) = [.root, .blockName "b"] ∧
      (m.functions.flatMap fun f => functionsIn f.body).map (·.name) =
        [.macroName "outer", .macroName "inner"] := ⟨_, _, rfl, rfl, rfl⟩
  exact ⟨m, c, hm, hnames, hinner, compileModule_closed hm⟩

end Stencil
