import Stencil.Proofs.Making

/-!
# Code that keeps its context to itself

Generated code gets hold of the render context in one variable. Discreet code uses it in three ways
only: it calls a method other than `addBlock`, it enters the winning definition of a block, and it
searches for a name. It never stores the context or passes it on. All code is discreet that is
generated for trees without inheritance, or behind the one place where a template inherits
(`Builds.discreet`).
-/

namespace Stencil

open List Script

namespace Script

/-- A constant, or a variable other than the context. -/
inductive Plain : Expr → Prop where
  | const (c : Constant) : Plain (.const c)
  | tree (n : Node) : Plain (.tree n)
  | name {id} (h : id ≠ .context) : Plain (.name id)

/-- The calls in which discreet code uses its context. -/
inductive UsesContext : Expr → List Expr → Prop where
  | method {field args} (hfield : field ≠ .addBlock) (hargs : ∀ e ∈ args, Plain e) :
    UsesContext (.attr (.name .context) field) args
  | block (name : Node.Content) :
    UsesContext (.method (.name .context) .getBlock [.ofContent name]) Expr.entryArgs
  | search (x : String) :
    UsesContext (.attr (.name .runtime) .resolve) [.name .context, .name .frame, .text x]

/-- What a discreet expression may do. -/
def discreet : Access where
  reads := (· ≠ .context)
  writes := (· ≠ .context)
  fields := fun _ => True
  whole := UsesContext

mutual

/-- A statement keeps the context to itself, also in the functions that it defines. -/
def Stmt.Discreet : Stmt → Prop
  | .expr e | .ret e => e.Obeys discreet
  | .assign id e | .increment id e => id ≠ .context ∧ e.Obeys discreet
  | .branch test body otherwise => test.Obeys discreet ∧ DiscreetIn body ∧ DiscreetIn otherwise
  | .loop target source body =>
    target.Obeys discreet ∧ source.Obeys discreet ∧ DiscreetIn body
  | .define name params captured body =>
    name ≠ .context ∧ (∀ p ∈ captured, p.2.Obeys discreet) ∧
      .context ∉ params ++ captured.map (·.1) ∧ DiscreetIn body
  | .pass => True

def DiscreetIn : List Stmt → Prop
  | [] => True
  | s :: rest => s.Discreet ∧ DiscreetIn rest

end

@[simp]
theorem discreetIn_append {ss ts} : DiscreetIn (ss ++ ts) ↔ DiscreetIn ss ∧ DiscreetIn ts := by
  induction ss with
  | nil => simp [DiscreetIn]
  | cons s rest ih => simp only [cons_append, DiscreetIn, ih, and_assoc]

/-! ## The policy of discreet code -/

/-- What discreet statements may do. -/
def discreetPolicy : Policy where
  toAccess := discreet
  defines := fun own body => .context ∉ own ∧ DiscreetIn body

mutual

theorem Stmt.Discreet.obeys : ∀ s : Stmt, s.Discreet → s.Obeys discreetPolicy
  | .expr _, h | .ret _, h | .assign _ _, h => h
  | .increment _ _, h => ⟨h.1, h⟩
  | .branch _ body otherwise, h =>
    ⟨h.1, DiscreetIn.obeys body h.2.1, DiscreetIn.obeys otherwise h.2.2⟩
  | .loop _ _ body, h => ⟨h.1, h.2.1, DiscreetIn.obeys body h.2.2⟩
  | .define .., h => h
  | .pass, _ => trivial

theorem DiscreetIn.obeys : ∀ body : List Stmt, DiscreetIn body → ObeyInBody discreetPolicy body
  | [], _ => trivial
  | s :: rest, h => ⟨h.1.obeys s, DiscreetIn.obeys rest h.2⟩

end

/-! ## Discreet code does not assign the context -/

/-- Plain expressions do what every policy allows by which variables other than the one for the
context may be read. -/
theorem Plain.obeyIn {π} (hreads : ∀ id, id ≠ .context → π.reads id) :
    ∀ {es : List Expr}, (∀ e ∈ es, Plain e) → ObeyIn π es
  | [], _ => trivial
  | e :: rest, h => by
    refine ⟨?_, Plain.obeyIn hreads fun e he => h e (mem_cons_of_mem _ he)⟩
    cases h e mem_cons_self with
    | const k => trivial
    | tree n => trivial
    | name hid => exact hreads _ hid

theorem Plain.assignedIn_eq : ∀ {es : List Expr}, (∀ e ∈ es, Plain e) → assignedIn es = []
  | [], _ => rfl
  | e :: rest, h => by
    have he : e.assigned = [] := by
      cases h e mem_cons_self <;> rfl
    rw [assignedIn, he, Plain.assignedIn_eq fun e he => h e (mem_cons_of_mem _ he)]
    rfl

theorem UsesContext.assigned_eq {callee args} (h : UsesContext callee args) :
    (Expr.call callee args).assigned = [] := by
  cases h with
  | method hfield hargs =>
    rw [Expr.assigned, Plain.assignedIn_eq hargs]
    rfl
  | block name => cases name <;> rfl
  | search x => rfl

theorem not_ownedBy {own body} (hown : .context ∉ own) (hbody : DiscreetIn body) :
    .context ∉ ownedBy own body := by
  have hassigned : .context ∉ assignedInBody body := fun hmem =>
    writes_of_assignedInBody (π := discreetPolicy)
      (fun _ _ h _ hid => by simp [UsesContext.assigned_eq h] at hid) body hbody.obeys _ hmem rfl
  simp [ownedBy, hown, hassigned]

end Script

/-! ## Generated code -/

namespace Compile

open Script

theorem obeys_method {object field es} (ho : object.Obeys discreet) (h : ObeyIn discreet es) :
    (Expr.method object field es).Obeys discreet :=
  .inr ⟨⟨trivial, ho⟩, h⟩

/-- What discreet code is made of. -/
def discreetMakings : Makings where
  known := (· ≠ .context)
  var := (· ≠ .context)
  expr := (·.Obeys discreet)
  inherits := False

theorem serves_discreet : Serves discreet discreetMakings where
  expr := .rfl
  known h := h
  var h := ⟨h, h, h⟩
  fixed := show ∀ id ∈ _, id ≠ Ident.context by decide
  frame := Ident.noConfusion
  fields _ := trivial
  search x := .inl (.search x)
  publish _ _ h := .inl (.method Attr.noConfusion (by simpa using ⟨.const _, .name h⟩))
  offer _ := .inl (.method Attr.noConfusion (by simpa using .const _))
  copied := .inl (.method Attr.noConfusion (forall_mem_nil _))
  block _ := .inl (.block _)
  temp _ := Ident.noConfusion
  named _ := ⟨Ident.noConfusion, Ident.noConfusion⟩

variable {buffer : Ident} {ss : List Stmt} {p p' : Progress} {ns : List Node}

theorem discreetIn_printed (hb : buffer ≠ .context) (h : DiscreetIn ss) :
    DiscreetIn (printed buffer ss) := by
  refine discreetIn_append.2 ⟨⟨⟨hb, trivial⟩, h⟩, ?_, trivial⟩
  exact obeys_method trivial ⟨hb, trivial⟩

theorem discreetIn_framed (h : DiscreetIn ss) : DiscreetIn ([.pushFrame] ++ ss ++ [.popFrame]) := by
  have hmethod (field : Attr) : (Expr.method (.name .frame) field []).Obeys discreet :=
    obeys_method Ident.noConfusion trivial
  rw [discreetIn_append, discreetIn_append]
  exact ⟨⟨⟨⟨Ident.noConfusion, hmethod _⟩, trivial⟩, h⟩, ⟨Ident.noConfusion, hmethod _⟩, trivial⟩

theorem discreet_step (hb : buffer ≠ .context) {s : Stmt} (h : s.Step discreetMakings buffer) :
    s.Discreet := by
  have hs := serves_discreet.step trivial hb h fun _ _ => False
  cases h with
  | increment hid => exact ⟨hid, trivial⟩
  | _ => exact hs

theorem discreetIn_of_made {bound : List String} (h : Made discreetMakings buffer bound ss) :
    buffer ≠ .context → DiscreetIn ss := by
  induction h with
  | nil => exact fun _ => trivial
  | append _ _ ih ih' => exact fun hb => discreetIn_append.2 ⟨ih hb, ih' hb⟩
  | step hs => exact fun hb => ⟨discreet_step hb hs, trivial⟩
  | frameSet _ he =>
    refine fun _ => ⟨?_, trivial⟩
    exact obeys_method Ident.noConfusion ⟨trivial, serves_discreet.compound he, trivial⟩
  | branch he _ _ ih ih' =>
    exact fun hb => ⟨⟨serves_discreet.compound he, ih hb, ih' hb⟩, trivial⟩
  | loop ht he _ ih =>
    exact fun hb => ⟨⟨serves_discreet.target ht, serves_discreet.compound he, ih hb⟩, trivial⟩
  | define hname hparams _ ih =>
    refine fun _ => discreetIn_framed ⟨⟨hname, ?_, ?_, ?_⟩, trivial⟩
    · exact forall_mem_singleton.2 Ident.noConfusion
    · simp
    · exact discreetIn_printed Ident.noConfusion (ih Ident.noConfusion)
  | framed _ _ ih => exact fun hb => discreetIn_framed (ih hb)
  | inheritance hinherits _ _ => exact hinherits.elim

/-- The template is known to inherit, or none of the given nodes makes it inherit. -/
def Settled (p : Progress) (ns : List Node) : Prop :=
  p.child = true ∨ ∀ n ∈ ns, isInherit n = false

theorem Settled.mono {ns'} (h : Settled p ns) (hp : p'.child = p.child) (hns : ns' ⊆ ns) :
    Settled p' ns' :=
  h.imp (hp.trans ·) fun h n hn => h n (hns hn)

theorem Turns.child_eq (h : Turns p ns p') (hp : Settled p ns) : p'.child = p.child := by
  rcases h with h | ⟨hchild, d, hd, hinherit⟩
  · exact h
  · rcases hp with hp | hp
    · cases hchild.symm.trans hp
    · cases hinherit.symm.trans (hp d hd)

theorem Settled.fits (h : Settled p ns) : Fits discreetMakings p ns := by
  refine serves_discreet.fits (fun _ => trivial) (fun _ _ _ _ _ _ => trivial)
    fun hchild n hn hi => ?_
  rcases h with h | h
  · cases hchild.symm.trans h
  · cases hi.symm.trans (h n hn)

/-- The code of a statement is discreet, unless the statement makes its template inherit. -/
theorem Builds.discreet {site scope scope' n} (h : Builds site scope n p ss scope' p')
    (hb : site.buffer ≠ .context) (hs : scope.Only (· ≠ .context))
    (hp : Settled p (n :: n.descendants)) : DiscreetIn ss ∧ p'.child = p.child :=
  ⟨discreetIn_of_made ((h.made hp.fits hs fun _ _ _ => Ident.noConfusion).1 []) hb,
    h.turns.child_eq hp⟩

theorem BuildsAll.discreet {site scope scope'} (h : BuildsAll site scope ns p ss scope' p')
    (hb : site.buffer ≠ .context) (hs : scope.Only (· ≠ .context))
    (hp : Settled p (Node.forest ns)) : DiscreetIn ss ∧ p'.child = p.child :=
  ⟨discreetIn_of_made ((h.made hp.fits hs fun _ _ _ => Ident.noConfusion).1 []) hb,
    h.turns.child_eq hp⟩

/-! ## Entry points -/

/-- A function that is entered like every template and block and keeps its context to itself. -/
structure IsDiscreetEntry (f : Script.Function) : Prop where
  params : f.params = Script.entryParams
  body : DiscreetIn f.body

/-- The function of a block keeps the context to itself. -/
theorem isDiscreetEntry_blockFunction {name body f} (hp : Settled p (body :: body.descendants))
    (h : Gives (blockFunction name body) p f p') : IsDiscreetEntry f ∧ p'.child = p.child := by
  obtain ⟨ss, scope, hss, rfl⟩ := gives_blockFunction h
  obtain ⟨hd, hchild⟩ := hss.discreet Ident.noConfusion
    (Scope.Only.empty.set _ Ident.noConfusion) hp
  have hargs : ∀ e ∈ [Script.Expr.name .env, .ofContent name, .name (.blockName name.text),
      .name .runtime], Plain e := by
    have hname : Plain (.ofContent name) := by
      cases name with
      | constant c => exact .const c
      | node n => exact .tree n
    simpa using ⟨.name Ident.noConfusion, hname, .name Ident.noConfusion, .name Ident.noConfusion⟩
  refine ⟨⟨rfl, discreetIn_printed Ident.noConfusion ⟨⟨Ident.noConfusion, ?_⟩, hd⟩⟩, hchild⟩
  exact .inl (.method Attr.noConfusion hargs)

/-- The root of a template that does not inherit keeps the context to itself. -/
theorem isDiscreetEntry_rootFunction {items f} (hchild : p.child = false)
    (hitems : ∀ n ∈ Node.forest items, isInherit n = false)
    (h : Gives (rootFunction items) p f p') : IsDiscreetEntry f ∧ p'.child = false := by
  obtain ⟨ss, scope, hss, rfl⟩ := gives_rootFunction h
  obtain ⟨hd, hq⟩ := hss.discreet Ident.noConfusion Scope.Only.empty (.inr hitems)
  rw [hchild] at hq
  rw [hq, delegation, if_neg Bool.false_ne_true, List.append_nil]
  exact ⟨⟨rfl, discreetIn_printed Ident.noConfusion ⟨⟨Ident.noConfusion, trivial⟩, hd⟩⟩, rfl⟩

end Compile

end Stencil
