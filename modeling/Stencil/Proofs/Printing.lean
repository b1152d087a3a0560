import Stencil.Proofs.Making

/-!
# Code that prints to its buffer

A function collects its output in a buffer: it begins with an empty list there, appends texts to it,
and returns in the end what the texts make up. Between the beginning and the end it uses the buffer
for output only, and never a buffer of another function; the functions that it defines are of the
same kind. All generated code prints in this way (`Builds.prints`), and so do the functions of every
compiled module (`printer_of_isCompiled`).
-/

namespace Stencil

open Compile List Script

namespace Script

/-- The identifiers for the buffers of functions. -/
def Ident.isBuffer : Ident → Bool
  | .output | .macroOutput => true
  | _ => false

/-- To leave buffers alone. -/
def apart : Access where
  reads id := id.isBuffer = false
  writes id := id.isBuffer = false
  fields := fun _ => True
  whole := fun _ _ => False

/-- Expressions that leave buffers alone and can give nothing but a text: raw text, the text form of
something, what a block or an included template renders, and what the parent template renders. -/
inductive Expr.Textual : Expr → Prop where
  | raw (s : String) : Textual (.text s)
  | shown {e} : e.Obeys apart → Textual (.helper .toStr [e])
  | block (c : Node.Content) :
    Textual (.call (.method (.name .context) .getBlock [.ofContent c]) entryArgs)
  | inclusion {id} : id.isBuffer = false → Textual (.rendered id)
  | parent : Textual (.method (.name .parentTemplate) .rootRenderFunc entryArgs)

/-- Statements that use a buffer for output only, and return before their end only where `returns`
says that they may. -/
inductive Prints : (buffer : Ident) → (returns : Bool) → List Stmt → Prop where
  | nil {buffer returns} : Prints buffer returns []
  | append {buffer returns ss ts} : Prints buffer returns ss →
    Prints buffer returns ts → Prints buffer returns (ss ++ ts)
  | expr {buffer returns e} : e.Obeys apart → Prints buffer returns [.expr e]
  | assign {buffer returns id e} : id.isBuffer = false →
    e.Obeys apart → Prints buffer returns [.assign id e]
  | increment {buffer returns id e} : id.isBuffer = false →
    e.Obeys apart → Prints buffer returns [.increment id e]
  | pass {buffer returns} : Prints buffer returns [.pass]
  | emit {buffer returns e} : e.Textual → Prints buffer returns [.emit buffer e]
  | ret {buffer e} : e.Textual → Prints buffer true [.ret e]
  | branch {buffer returns test body otherwise} :
    test.Obeys apart → Prints buffer returns body → Prints buffer returns otherwise →
    Prints buffer returns [.branch test body otherwise]
  | loop {buffer returns target source body} :
    target.Obeys apart → source.Obeys apart → Prints buffer returns body →
    Prints buffer returns [.loop target source body]
  | define {buffer returns name params captured ss} : name.isBuffer = false →
    (∀ p ∈ params, p.isBuffer = false) →
    (∀ p ∈ captured, p.1.isBuffer = false ∧ p.2.Obeys apart) → Prints .macroOutput false ss →
    Prints buffer returns [.define name params captured (printed .macroOutput ss)]

namespace Prints

variable {buffer : Ident} {returns : Bool} {s : Stmt} {ss : List Stmt}

theorem cons (h : Prints buffer returns [s]) (hss : Prints buffer returns ss) :
    Prints buffer returns (s :: ss) :=
  h.append hss

/-- Code that comes to its end may be taken for code that may return. -/
theorem returning (h : Prints buffer returns ss) : Prints buffer true ss := by
  induction h with
  | nil => exact .nil
  | append _ _ ih ih' => exact ih.append ih'
  | expr he => exact .expr he
  | assign hid he => exact .assign hid he
  | increment hid he => exact .increment hid he
  | pass => exact .pass
  | emit he => exact .emit he
  | ret he => exact .ret he
  | branch he _ _ ih ih' => exact .branch he ih ih'
  | loop ht he _ ih => exact .loop ht he ih
  | define hname hparams hcaptured hss _ => exact .define hname hparams hcaptured hss

end Prints

/-- A function that prints to a buffer of its own. -/
structure Printer (buffer : Ident) (f : Function) : Prop where
  isBuffer : buffer.isBuffer = true
  name : f.name.isBuffer = false
  params : ∀ p ∈ f.params, p.isBuffer = false
  body : ∃ ss, f.body = printed buffer ss ∧ Prints buffer true ss

end Script

/-! ## Generated code -/

namespace Compile

open Script

variable {scope : Scope Ident} {buffer : Ident} {returns : Bool}

/-- The scope knows no buffer. -/
abbrev Unbuffered (scope : Scope Ident) : Prop :=
  scope.Only fun id => id.isBuffer = false

theorem apart_method {object field args} (hobject : object.Obeys apart)
    (hargs : ObeyIn apart args) : (Expr.method object field args).Obeys apart :=
  .inr ⟨⟨trivial, hobject⟩, hargs⟩

theorem apart_name {id} (h : id.isBuffer = false) : (Expr.name id).Obeys apart :=
  h

/-- What code is made of that prints. -/
def apartMakings : Makings where
  known id := id.isBuffer = false
  var id := id.isBuffer = false
  expr := (·.Obeys apart)

theorem serves_apart : Serves apart apartMakings where
  expr := .rfl
  known h := h
  var h := ⟨h, h, h⟩
  fixed := show ∀ id ∈ _, Ident.isBuffer id = false by decide
  frame := rfl
  fields _ := trivial
  search _ := apart_method (apart_name rfl) ⟨apart_name rfl, apart_name rfl, trivial, trivial⟩
  publish _ _ h := apart_method (apart_name rfl) ⟨trivial, apart_name h, trivial⟩
  offer _ := apart_method (apart_name rfl) ⟨trivial, trivial⟩
  copied := apart_method (apart_name rfl) trivial
  block _ := .inr ⟨apart_method (apart_name rfl) ⟨obeys_ofContent _, trivial⟩,
    apart_name rfl, apart_name rfl, apart_name rfl, apart_name rfl, trivial⟩
  temp _ := rfl
  named _ := ⟨rfl, rfl⟩

theorem textual_of_shown {e : Expr} (h : e.Shown apartMakings) : e.Textual := by
  cases h with
  | raw s => exact .raw s
  | value he => exact .shown he
  | block _ => exact .block _
  | inclusion hid => exact .inclusion hid

theorem prints_step {s : Stmt} (h : s.Step apartMakings buffer) : Prints buffer returns [s] := by
  cases h with
  | pass => exact .pass
  | expr he => exact .expr (serves_apart.compound he)
  | publish name hid => exact .expr (serves_apart.publish name hid)
  | offer name => exact .expr (serves_apart.offer name)
  | assign hid he => exact .assign hid (serves_apart.compound he)
  | increment hid => exact .increment hid trivial
  | emit he => exact .emit (textual_of_shown he)

variable {ss : List Stmt} {p p' : Progress}

theorem prints_framed (h : Prints buffer returns ss) :
    Prints buffer returns ([.pushFrame] ++ ss ++ [.popFrame]) :=
  .append (.append (.assign rfl (apart_method (apart_name rfl) trivial)) h)
    (.assign rfl (apart_method (apart_name rfl) trivial))

/-- Code that is made of what leaves buffers alone uses its buffer for output only; the body of a
macro prints to a buffer of its own. -/
theorem prints_of_made {bound} (h : Made apartMakings buffer bound ss) :
    ∀ returns, Prints buffer returns ss := by
  induction h with
  | nil => exact fun _ => .nil
  | append _ _ ih ih' => exact fun returns => (ih returns).append (ih' returns)
  | step hs => exact fun _ => prints_step hs
  | frameSet _ he =>
    exact fun _ =>
      .expr (apart_method (apart_name rfl) ⟨trivial, serves_apart.compound he, trivial⟩)
  | branch he _ _ ih ih' =>
    exact fun returns => .branch (serves_apart.compound he) (ih returns) (ih' returns)
  | loop ht he _ ih =>
    exact fun returns => .loop (serves_apart.target ht) (serves_apart.compound he) (ih returns)
  | define hname hparams _ ih =>
    refine fun _ => prints_framed (.define hname (forall_mem_map.2 hparams) ?_ (ih false))
    exact forall_mem_singleton.2 ⟨rfl, apart_name rfl⟩
  | framed _ _ ih => exact fun returns => prints_framed (ih returns)
  | inheritance _ he hkey =>
    intro _
    have hblocks : Expr.Obeys apart (.attr (.name .parentTemplate) .blocks) :=
      ⟨trivial, apart_name rfl⟩
    refine .cons (.assign rfl (apart_method (apart_name rfl) ⟨he, trivial, trivial⟩)) ?_
    refine .loop (forall_mem_singleton.2 hkey) hblocks (.expr ?_)
    exact apart_method (apart_name rfl) ⟨apart_name hkey, ⟨hblocks, apart_name hkey⟩, trivial⟩

theorem fits_apart (p : Progress) (ns : List Node) : Fits apartMakings p ns :=
  serves_apart.fits (fun _ => trivial) (fun _ _ _ _ _ _ => trivial) fun _ _ _ _ => trivial

theorem BuildsSignature.apart {params es} (h : BuildsSignature scope params p es p')
    (hs : Unbuffered scope) : ObeyIn apart es := by
  refine obeyIn_iff.2 fun e he => serves_apart.compound ?_
  exact h.compound (fits_apart p _) (Subset.refl _) hs (fun _ _ _ => rfl) e he

/-- The code of a statement prints to the buffer of its site, and the scope behind it knows no
buffer. -/
theorem Builds.prints {site scope scope' n} (h : Builds site scope n p ss scope' p')
    (hs : Unbuffered scope) : Prints site.buffer returns ss ∧ Unbuffered scope' := by
  obtain ⟨hmade, hs'⟩ := h.made (fits_apart _ _) hs fun _ _ _ => rfl
  exact ⟨prints_of_made (hmade []) returns, hs'⟩

theorem BuildsAll.prints {site scope scope' ns} (h : BuildsAll site scope ns p ss scope' p')
    (hs : Unbuffered scope) : Prints site.buffer returns ss ∧ Unbuffered scope' := by
  obtain ⟨hmade, hs'⟩ := h.made (fits_apart _ _) hs fun _ _ _ => rfl
  exact ⟨prints_of_made (hmade []) returns, hs'⟩

/-! ## Generated functions -/

theorem prints_delegation (child : Bool) : Prints buffer true (delegation child) := by
  unfold delegation
  split
  · exact .branch ⟨apart_name rfl, trivial, trivial⟩ (.ret .parent) .nil
  · exact .nil

theorem entryParams_unbuffered : ∀ p ∈ entryParams, p.isBuffer = false := by
  decide

theorem printer_rootFunction {items f} (h : Gives (rootFunction items) p f p') :
    Printer .output f := by
  obtain ⟨ss, scope, hss, rfl⟩ := gives_rootFunction h
  have hprints : Prints .output true
      (.assign .parentTemplate (.const .null) :: (ss ++ delegation p'.child)) :=
    .cons (.assign rfl trivial) ((hss.prints .empty).1.append (prints_delegation _))
  exact ⟨rfl, rfl, entryParams_unbuffered, _, rfl, hprints⟩

theorem printer_blockFunction {name body f} (h : Gives (blockFunction name body) p f p') :
    Printer .output f := by
  obtain ⟨ss, scope, hss, rfl⟩ := gives_blockFunction h
  have hsuper : (Expr.method (.name .context) .getSuper
      [.name .env, .ofContent name, .name (.blockName name.text), .name .runtime]).Obeys apart :=
    apart_method (apart_name rfl)
      ⟨apart_name rfl, obeys_ofContent name, apart_name rfl, apart_name rfl, trivial⟩
  have hprints : Prints .output true ss := (hss.prints (Scope.Only.empty.set _ rfl)).1
  exact ⟨rfl, rfl, entryParams_unbuffered, _, rfl, .cons (.assign rfl hsuper) hprints⟩

end Compile

theorem printer_of_isCompiled {m : Module} (h : m.IsCompiled) :
    ∀ f ∈ m.functions, Printer .output f := by
  obtain ⟨tree, name?, file?, c, hcompile⟩ := h
  have hgives := gives_of_compileModule (Compiler.compileModule_of_compile hcompile)
  obtain ⟨pos, items, root, table, blocks, q, rfl, hroot, -, hblocks, rfl, -⟩ :=
    gives_templateModule hgives
  refine forall_mem_cons.2 ⟨printer_rootFunction hroot, fun f hf => ?_⟩
  obtain ⟨entry, -, _, _, hf⟩ := (buildsBlocks_of_gives hblocks).names.2 f hf
  exact printer_blockFunction hf

end Stencil
