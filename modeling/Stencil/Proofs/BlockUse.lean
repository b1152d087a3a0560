import Stencil.Proofs.Units

/-!
# Code that uses known blocks

Generated code gets hold of the render context in one variable and uses it in few ways: it calls
methods that have nothing to do with blocks, it renders a block, it asks for what a block overrides,
it searches for a name, it adds the blocks of a parent template, and it hands the render over to the
parent. `Script.Refers known own ss` says that the statements do no more than that and name known
blocks only. The code of a template names the blocks that the tree defines
(`Compile.Functions.refers`).
-/

namespace Stencil

open Compile List

namespace Script

variable {known : String → Prop}

/-- The calls in which code uses its context, when it names known blocks only. -/
inductive Consults (known : String → Prop) : Expr → List Expr → Prop where
  | method {field args} (hfield : field ≠ .addBlock ∧ field ≠ .getBlock ∧ field ≠ .getSuper)
    (hargs : ∀ e ∈ args, Plain e) : Consults known (.attr (.name .context) field) args
  | block {b} (hb : known b) :
    Consults known (.method (.name .context) .getBlock [.text b]) Expr.entryArgs
  | overridden {b} (hb : known b) : Consults known (.attr (.name .context) .getSuper)
      [.name .env, .text b, .name (.blockName b), .name .runtime]
  | search (x : String) :
    Consults known (.attr (.name .runtime) .resolve) [.name .context, .name .frame, .text x]

theorem Consults.assigned_eq {callee args} (h : Consults known callee args) :
    (Expr.call callee args).assigned = [] := by
  cases h with
  | method hfield hargs =>
    rw [Expr.assigned, Plain.assignedIn_eq hargs]
    rfl
  | block | overridden | search => rfl

/-- An identifier that stands neither for the context nor for the parent template nor for the
function of a block. -/
def Ident.Ordinary (id : Ident) : Prop :=
  id ≠ .context ∧ id ≠ .parentTemplate ∧ ∀ b, id ≠ .blockName b

theorem Ident.Ordinary.temp (k : Nat) : (Ident.temp k).Ordinary := by simp [Ordinary]

theorem Ident.Ordinary.localName (x : String) : (Ident.localName x).Ordinary := by simp [Ordinary]

theorem Ident.Ordinary.macroName (x : String) : (Ident.macroName x).Ordinary := by simp [Ordinary]

theorem Ident.Ordinary.frame : Ident.frame.Ordinary := by simp [Ordinary]

theorem Ident.Ordinary.output : Ident.output.Ordinary := by simp [Ordinary]

theorem Ident.Ordinary.macroOutput : Ident.macroOutput.Ordinary := by simp [Ordinary]

/-- What code may do that names known blocks only. -/
def referring (known : String → Prop) : Access where
  reads := (· ≠ .context)
  writes := Ident.Ordinary
  fields := fun _ => True
  whole := Consults known

/-- The same for statements that define no functions. -/
def referringPolicy (known : String → Prop) : Policy :=
  { referring known with defines := fun _ _ => False }

/-- Statements that name known blocks only, in a function to which the identifiers `own` belong.
Apart from that they add the blocks of a parent template and hand over to it. -/
inductive Refers (known : String → Prop) : List Ident → List Stmt → Prop where
  | nil {own} : Refers known own []
  | append {own ss ts} : Refers known own ss → Refers known own ts → Refers known own (ss ++ ts)
  | plain {own s} : s.Obeys (referringPolicy known) → Refers known own [s]
  | branch {own test body otherwise} :
    test.Obeys (referring known) → Refers known own body → Refers known own otherwise →
    Refers known own [.branch test body otherwise]
  | loop {own target source body} :
    target.Obeys (referring known) → source.Obeys (referring known) → Refers known own body →
    Refers known own [.loop target source body]
  | define {own name params captured body} :
    name.Ordinary → (∀ p ∈ captured, p.2.Obeys (referring known)) →
    (∀ id ∈ params ++ captured.map (·.1), id.Ordinary) →
    Refers known (ownedBy (params ++ captured.map (·.1)) body) body →
    Refers known own [.define name params captured body]
  | orphan {own} : Refers known own [.assign .parentTemplate (.const .null)]
  | inheritance {own parent k} : parent.Obeys (referring known) →
    .parentTemplate ∈ own → .temp k ∈ own →
    Refers known own (inheritance parent (.temp k))
  | delegation {own} (child : Bool) : .parentTemplate ∈ own → Refers known own (delegation child)

namespace Refers

variable {own : List Ident} {s : Stmt} {ss : List Stmt}

theorem cons (h : Refers known own [s]) (hss : Refers known own ss) : Refers known own (s :: ss) :=
  h.append hss

theorem assign {id e} (hid : id.Ordinary) (he : e.Obeys (referring known)) :
    Refers known own [.assign id e] :=
  .plain ⟨hid, he⟩

theorem expr {e} (he : e.Obeys (referring known)) : Refers known own [.expr e] :=
  .plain he

theorem ret {e} (he : e.Obeys (referring known)) : Refers known own [.ret e] :=
  .plain he

/-- What such statements assign is ordinary, the parent template apart. -/
theorem ordinary_of_assigned (h : Refers known own ss) :
    ∀ id ∈ assignedInBody ss, id = .parentTemplate ∨ id.Ordinary := by
  have hwhole : ∀ callee args, (referring known).whole callee args →
      ∀ id ∈ (Expr.call callee args).assigned, (referring known).writes id :=
    fun _ _ hcall id hid => by simp [Consults.assigned_eq hcall] at hid
  have hexpr {e : Expr} (he : e.Obeys (referring known)) (id : Ident) (hid : id ∈ e.assigned) :
      id = .parentTemplate ∨ id.Ordinary :=
    .inr (e.writes_of_assigned hwhole he id hid)
  induction h with
  | nil => exact forall_mem_nil _
  | append _ _ ih ih' =>
    intro id hid
    rw [assignedInBody_append, mem_append] at hid
    exact hid.elim (ih id) (ih' id)
  | plain hs =>
    intro id hid
    rw [assignedInBody, assignedInBody, append_nil] at hid
    exact .inr (Stmt.writes_of_assigned (π := referringPolicy known) hwhole _ hs id hid)
  | branch htest _ _ ih ih' =>
    intro id hid
    simp only [assignedInBody, Stmt.assigned, append_nil, mem_append] at hid
    exact hid.elim (fun hid => hid.elim (hexpr htest id) (ih id)) (ih' id)
  | loop htarget hsource _ ih =>
    intro id hid
    simp only [assignedInBody, Stmt.assigned, append_nil, mem_append] at hid
    exact hid.elim (fun hid => hid.elim (fun hid => .inr (htarget id hid)) (hexpr hsource id))
      (ih id)
  | define hname hcaptured _ _ _ =>
    intro id hid
    simp only [assignedInBody, Stmt.assigned, append_nil, mem_cons, mem_flatMap] at hid
    rcases hid with rfl | ⟨p, hp, hid⟩
    · exact .inr hname
    · exact hexpr (hcaptured p hp) id hid
  | orphan =>
    intro id hid
    simp only [assignedInBody, Stmt.assigned, Expr.assigned, append_nil, mem_singleton] at hid
    exact .inl hid
  | inheritance hparent _ _ =>
    intro id hid
    simp only [Compile.inheritance, assignedInBody, Stmt.assigned, Expr.method, Expr.assigned,
      Target.assigned, assignedIn, append_nil, nil_append, mem_append, mem_cons,
      not_mem_nil, or_false] at hid
    rcases hid with (rfl | hid) | rfl
    · exact .inl rfl
    · exact hexpr hparent id hid
    · exact .inr (.temp _)
  | delegation child _ =>
    intro id hid
    simp at hid

end Refers

end Script

/-! ## Generated code -/

namespace Compile

open Script

variable {known : String → Prop} {own : List Ident}

theorem refers_method {object field es} (ho : object.Obeys (referring known))
    (h : ObeyIn (referring known) es) :
    (Script.Expr.method object field es).Obeys (referring known) :=
  .inr ⟨⟨trivial, ho⟩, h⟩

/-- What code is made of that names known blocks only. -/
def referringMakings (known : String → Prop) : Makings where
  known := (· ≠ .context)
  var := Ident.Ordinary
  expr := (·.Obeys (referring known))
  block c := ∃ b, c = .constant (.str b) ∧ known b

theorem serves_referring : Serves (referring known) (referringMakings known) where
  expr := .rfl
  known h := h
  var h := ⟨h.1, h.1, h⟩
  fixed := show ∀ id ∈ _, id ≠ Ident.context by decide
  frame := Ident.noConfusion
  fields _ := trivial
  search x := .inl (.search x)
  publish _ _ h := .inl (.method ⟨Attr.noConfusion, Attr.noConfusion, Attr.noConfusion⟩
    (by simpa using ⟨.const _, .name h.1⟩))
  offer _ := .inl (.method ⟨Attr.noConfusion, Attr.noConfusion, Attr.noConfusion⟩
    (by simpa using .const _))
  copied := .inl (.method ⟨Attr.noConfusion, Attr.noConfusion, Attr.noConfusion⟩ (forall_mem_nil _))
  block h := by
    obtain ⟨b, rfl, hb⟩ := h
    exact .inl (.block hb)
  temp k := .temp k
  named x := ⟨.localName x, .macroName x⟩

theorem refers_framed {ss} (h : Refers known own ss) :
    Refers known own ([.pushFrame] ++ ss ++ [.popFrame]) := by
  have hmethod (field : Attr) :
      (Script.Expr.method (.name .frame) field []).Obeys (referring known) :=
    refers_method Ident.noConfusion trivial
  exact ((Refers.assign .frame (hmethod .push)).append h).append (.assign .frame (hmethod .pop))

theorem refers_printed {buffer} (hb : buffer.Ordinary) {ss} (h : Refers known own ss) :
    Refers known own (printed buffer ss) :=
  .append (.cons (.assign hb trivial) h) (.ret (refers_method trivial ⟨hb.1, trivial⟩))

/-- The body of a function stands in the function to which belongs what it assigns. -/
theorem mem_ownedBy_printed {params buffer id ss} (h : id ∈ assignedInBody ss) :
    id ∈ ownedBy params (printed buffer ss) := by
  rw [ownedBy, mem_eraseDups, printed, assignedInBody_append, assignedInBody]
  exact mem_append_right _ (mem_append_left _ (mem_append_right _ h))

theorem refers_of_made {buffer bound ss} (h : Made (referringMakings known) buffer bound ss) :
    buffer ≠ .context →
    ∀ own, (∀ id ∈ assignedInBody ss, id ∈ own) → Refers known own ss := by
  induction h with
  | nil => exact fun _ _ _ => .nil
  | append _ _ ih ih' =>
    intro hb own hown
    rw [assignedInBody_append, forall_mem_append] at hown
    exact (ih hb own hown.1).append (ih' hb own hown.2)
  | step hs => exact fun hb _ _ => .plain (serves_referring.step trivial hb hs _)
  | frameSet _ he =>
    refine fun _ _ _ => .expr ?_
    exact refers_method Ident.noConfusion ⟨trivial, serves_referring.compound he, trivial⟩
  | branch he _ _ ih ih' =>
    intro hb own hown
    simp only [assignedInBody, Stmt.assigned, append_nil, forall_mem_append] at hown
    exact .branch (serves_referring.compound he) (ih hb own hown.1.2) (ih' hb own hown.2)
  | loop ht he _ ih =>
    intro hb own hown
    simp only [assignedInBody, Stmt.assigned, append_nil, forall_mem_append] at hown
    exact .loop (serves_referring.target ht) (serves_referring.compound he) (ih hb own hown.2)
  | define hname hparams _ ih =>
    intro _ own _
    refine refers_framed (.define hname (forall_mem_singleton.2 Ident.noConfusion) ?_ ?_)
    · exact forall_mem_append.2 ⟨forall_mem_map.2 hparams, forall_mem_singleton.2 .frame⟩
    · exact refers_printed .macroOutput (ih Ident.noConfusion _ fun _ => mem_ownedBy_printed)
  | framed _ _ ih =>
    intro hb own hown
    rw [assignedInBody_append, assignedInBody_append, forall_mem_append, forall_mem_append] at hown
    exact refers_framed (ih hb own hown.1.2)
  | inheritance _ he _ =>
    refine fun _ own hown => .inheritance he (hown _ ?_) (hown _ ?_)
    · simp [inheritance, assignedInBody, Stmt.assigned]
    · simp [inheritance, assignedInBody, Stmt.assigned, Target.assigned]

/-- The blocks among some nodes are named by texts that are known. -/
def NamesKnown (known : String → Prop) (ns : List Node) : Prop :=
  ∀ pos name body, .block pos name body ∈ ns → ∃ b, name.textName? = some b ∧ known b

theorem NamesKnown.mono {ns ns'} (h : NamesKnown known ns) (hns : ns' ⊆ ns) :
    NamesKnown known ns' :=
  fun pos name body hmem => h pos name body (hns hmem)

theorem NamesKnown.fits {ns} (h : NamesKnown known ns) (p : Progress) :
    Fits (referringMakings known) p ns := by
  refine serves_referring.fits (fun _ => trivial) (fun pos name body c hn hc => ?_)
    fun _ _ _ _ => trivial
  obtain ⟨b, hname, hb⟩ := h pos name body hn
  rw [Node.content?_of_textName? hname] at hc
  exact ⟨b, (Option.some.inj hc).symm, hb⟩

/-! ## Generated functions -/

/-- The root function names the blocks that stand in the root. -/
theorem refers_rootFunction {items p p' f} (h : Gives (rootFunction items) p f p')
    (hn : NamesKnown known (Node.forest items)) :
    f.params = entryParams ∧ Refers known (ownedBy f.params f.body) f.body := by
  obtain ⟨ss, scope, hss, rfl⟩ := gives_rootFunction h
  have hmade := (hss.made (hn.fits p) .empty fun k _ _ => .temp (k + 1)).1 []
  have howned : ∀ id ∈ .parentTemplate :: assignedInBody ss, id ∈ ownedBy entryParams
      (printed .output
        (.assign .parentTemplate (.const .null) :: (ss ++ delegation p'.child))) := by
    refine fun id hid => mem_ownedBy_printed ?_
    rw [assignedInBody, assignedInBody_append]
    rcases mem_cons.1 hid with rfl | hid
    · exact mem_append_left _ mem_cons_self
    · exact mem_append_right _ (mem_append_left _ hid)
  obtain ⟨hparent, howned⟩ := forall_mem_cons.1 howned
  exact ⟨rfl, refers_printed .output (.cons .orphan
    ((refers_of_made hmade Ident.noConfusion _ howned).append (.delegation _ hparent)))⟩

/-- The function of a block names the block and those that stand in its body. -/
theorem refers_blockFunction {b body p p' f}
    (h : Gives (blockFunction (.constant (.str b)) body) p f p') (hb : known b)
    (hn : NamesKnown known (body :: body.descendants)) :
    f.params = entryParams ∧ Refers known (ownedBy f.params f.body) f.body := by
  obtain ⟨ss, scope, hss, rfl⟩ := gives_blockFunction h
  have hmade := (hss.made (hn.fits p) (Scope.Only.empty.set _ Ident.noConfusion)
    fun k _ _ => .temp (k + 1)).1 []
  refine ⟨rfl, refers_printed .output (.cons ?_ ?_)⟩
  · exact .assign (.localName _) (.inl (.overridden hb))
  · refine refers_of_made hmade Ident.noConfusion _ fun id hid => mem_ownedBy_printed ?_
    exact mem_append_right _ hid

theorem namesKnown_definitions {tree : Node} (hnames : ∀ d ∈ tree.blocks, d.1.textName?.isSome) :
    NamesKnown (· ∈ tree.definitions.keys) tree.descendants := by
  intro pos name body hblock
  have hmem : (name, body) ∈ tree.blocks := mem_filterMap.2 ⟨_, hblock, rfl⟩
  obtain ⟨b, hb⟩ := Option.isSome_iff_exists.1 (hnames _ hmem)
  refine ⟨b, hb, ?_⟩
  have hentry : (b, body) ∈
      tree.blocks.filterMap fun d => d.1.textName?.map fun name => (name, d.2) :=
    mem_filterMap.2 ⟨_, hmem, by simp [hb]⟩
  obtain ⟨found, hfound⟩ := Table.exists_find?_ofList (mem_map_of_mem hentry)
  exact mem_map_of_mem ((Table.findIn_eq_some_iff (Table.nodup_keys_ofList _)).1 hfound)

theorem mem_descendants_of_definition {tree body : Node} {b}
    (h : tree.definitions.find? b = some body) : body ∈ tree.descendants := by
  obtain ⟨d, hd, heq⟩ := mem_filterMap.1 (Table.mem_of_find?_ofList h)
  obtain ⟨name, -, hname⟩ := Option.map_eq_some_iff.1 heq
  obtain ⟨n, hn, hmatch⟩ := mem_filterMap.1 hd
  cases n <;> cases hmatch
  cases hname
  exact Node.descendants_subset _ hn (by simp [Node.descendants])

/-- The functions of a compiled tree are entered like every template and block, and name the blocks
that the tree defines. -/
theorem Functions.refers {tree : Node} {fs} (h : Functions tree fs)
    (hnames : ∀ d ∈ tree.blocks, d.1.textName?.isSome) : ∀ f ∈ fs, f.params = entryParams ∧
      Refers (· ∈ tree.definitions.keys) (ownedBy f.params f.body) f.body := by
  intro f hf
  have hknown := namesKnown_definitions hnames
  obtain ⟨i, hi⟩ := mem_iff_getElem?.1 hf
  have hname : f.name ∈ fs.map (·.name) := mem_map_of_mem hf
  rw [h.names, mem_cons, mem_map] at hname
  obtain ⟨pos, items, root, p, rfl, hroot, hzero⟩ := h.root
  have hrefers := refers_rootFunction hroot (hknown.mono (by simp [Node.descendants]))
  rcases hname with hname | ⟨b, hb, hname⟩
  · have hrootName : root.name = .root := by
      obtain ⟨_, _, -, rfl⟩ := gives_rootFunction hroot
      rfl
    obtain rfl := h.unique hi hzero (hname.trans hrootName.symm)
    cases hi.symm.trans hzero
    exact hrefers
  · obtain ⟨body, q, q', hbody, hgives, -⟩ := h.block hi hname.symm
    exact refers_blockFunction hgives hb
      (hknown.mono (Node.cons_subset_descendants (mem_descendants_of_definition hbody)))

end Compile

end Stencil
