import Stencil.Proofs.Making

/-!
# Code that opens and closes frames in pairs

Balanced code opens a frame only to run balanced code and to close it again, binds names only in a
frame that it has opened itself, and otherwise leaves frames and the variable for the frame alone;
the functions that it defines are balanced as well. All generated code is balanced
(`Builds.balanced`), and so are the functions of every compiled module (`balanced_of_isCompiled`).
-/

namespace Stencil

open Compile Script

namespace Script

/-- To leave frames and the variable for the frame alone. -/
def calm : Access where
  reads := fun _ => True
  writes := (· ≠ .frame)
  fields := (· ≠ .set)
  whole := fun _ _ => False

/-- What balanced code may do between opening and closing frames. -/
def calmPolicy (defines : List Ident → List Stmt → Prop) : Policy :=
  { calm with defines }

/-- Statements that open and close frames in pairs. Names are bound in the innermost frame only
where that is a frame of their own. -/
inductive Balanced : (own : Bool) → List Stmt → Prop where
  | nil {own} : Balanced own []
  | append {own ss ts} : Balanced own ss → Balanced own ts → Balanced own (ss ++ ts)
  | calm {own s} : s.Obeys (calmPolicy fun _ _ => False) → Balanced own [s]
  | frameSet (name : String) {e} : e.Obeys calm → Balanced true [.frameSet name e]
  | branch {own test body otherwise} : test.Obeys calm →
    Balanced own body → Balanced own otherwise → Balanced own [.branch test body otherwise]
  | loop {own target source body} : target.Obeys calm →
    source.Obeys calm → Balanced own body → Balanced own [.loop target source body]
  | define {own name params captured body} : name ≠ .frame → (∀ p ∈ captured, p.2.Obeys calm) →
    .frame ∈ params ++ captured.map (·.1) → Balanced false body →
    Balanced own [.define name params captured body]
  | framed {own ss} : Balanced true ss → Balanced own ([.pushFrame] ++ ss ++ [.popFrame])

namespace Balanced

variable {own : Bool} {s : Stmt} {ss : List Stmt}

theorem cons (h : Balanced own [s]) (hss : Balanced own ss) : Balanced own (s :: ss) :=
  h.append hss

theorem assign {id e} (hid : id ≠ .frame) (he : e.Obeys Script.calm) :
    Balanced own [.assign id e] :=
  .calm ⟨hid, he⟩

theorem ret {e} (he : e.Obeys Script.calm) : Balanced own [.ret e] :=
  .calm he

end Balanced

end Script

/-! ## Generated code -/

namespace Compile

open Script

variable {own : Bool}

theorem calm_method {object field args} (hobject : object.Obeys calm) (hfield : field ≠ .set)
    (hargs : ObeyIn calm args) : (Expr.method object field args).Obeys calm :=
  .inr ⟨⟨hfield, hobject⟩, hargs⟩

/-- What balanced code is made of. -/
def calmMakings : Makings where
  var := (· ≠ .frame)
  expr := (·.Obeys calm)

theorem serves_calm : Serves calm calmMakings where
  expr := .rfl
  known _ := trivial
  var h := ⟨trivial, trivial, h⟩
  fixed _ _ := trivial
  frame := trivial
  fields h heq := by
    rw [heq] at h
    cases h
  search _ := calm_method trivial Attr.noConfusion ⟨trivial, trivial, trivial, trivial⟩
  publish _ _ _ := calm_method trivial Attr.noConfusion ⟨trivial, trivial, trivial⟩
  offer _ := calm_method trivial Attr.noConfusion ⟨trivial, trivial⟩
  copied := calm_method trivial Attr.noConfusion trivial
  block _ := .inr ⟨calm_method trivial Attr.noConfusion ⟨obeys_ofContent _, trivial⟩,
    trivial, trivial, trivial, trivial, trivial⟩
  temp _ := Ident.noConfusion
  named _ := ⟨Ident.noConfusion, Ident.noConfusion⟩

/-- Names are bound where a frame was opened for them. -/
theorem balanced_of_made {buffer bound ss} (h : Made calmMakings buffer bound ss) :
    ∀ own, (own = false → bound = []) → Balanced own ss := by
  induction h with
  | nil => exact fun _ _ => .nil
  | append _ _ ih ih' => exact fun own hown => (ih own hown).append (ih' own hown)
  | step hs => exact fun _ _ => .calm (serves_calm.step Attr.noConfusion trivial hs _)
  | frameSet hname he =>
    intro own hown
    cases own with
    | false => cases hown rfl ▸ hname
    | true => exact .frameSet _ (serves_calm.compound he)
  | branch he _ _ ih ih' =>
    exact fun own hown => .branch (serves_calm.compound he) (ih own hown) (ih' own hown)
  | loop ht he _ ih =>
    exact fun own hown => .loop (serves_calm.target ht) (serves_calm.compound he) (ih own hown)
  | define hname _ _ ih =>
    intro own _
    have hbody : Balanced false (printed .macroOutput _) :=
      .append (.cons (.assign Ident.noConfusion trivial) (ih false fun _ => rfl))
        (.ret (calm_method trivial Attr.noConfusion ⟨trivial, trivial⟩))
    exact .framed (.define hname (List.forall_mem_singleton.2 trivial) (by simp) hbody)
  | framed _ _ ih => exact fun _ _ => .framed (ih true Bool.noConfusion)
  | inheritance _ he hkey =>
    intro own _
    have hblocks : Script.Expr.Obeys calm (.attr (.name .parentTemplate) .blocks) :=
      ⟨Attr.noConfusion, trivial⟩
    refine .cons (.assign Ident.noConfusion
      (calm_method trivial Attr.noConfusion ⟨he, trivial, trivial⟩)) ?_
    refine .loop (List.forall_mem_singleton.2 hkey) hblocks (.calm ?_)
    exact calm_method trivial Attr.noConfusion ⟨trivial, ⟨hblocks, trivial⟩, trivial⟩

theorem fits_calm (p : Progress) (ns : List Node) : Fits calmMakings p ns :=
  serves_calm.fits (fun _ => trivial) (fun _ _ _ _ _ _ => trivial) fun _ _ _ _ => trivial

/-- The code of a statement is balanced, whether the innermost frame is one of its own or not. -/
theorem Builds.balanced {site scope scope' n p p' ss} (h : Builds site scope n p ss scope' p') :
    Balanced own ss :=
  balanced_of_made
    ((h.made (fits_calm _ _) (fun _ _ _ => trivial) fun _ _ _ => Ident.noConfusion).1 []) own
    fun _ => rfl

theorem BuildsAll.balanced {site scope scope' ns p p' ss}
    (h : BuildsAll site scope ns p ss scope' p') : Balanced own ss :=
  balanced_of_made
    ((h.made (fits_calm _ _) (fun _ _ _ => trivial) fun _ _ _ => Ident.noConfusion).1 []) own
    fun _ => rfl

/-! ## Generated functions -/

theorem balanced_delegation (child : Bool) : Balanced own (delegation child) := by
  unfold delegation
  split
  · refine .branch ⟨trivial, trivial, trivial⟩ (.ret ?_) .nil
    exact calm_method trivial Attr.noConfusion ⟨trivial, trivial, trivial, trivial, trivial⟩
  · exact .nil

/-- A function of a module: it takes a frame, and its body is balanced. -/
def BalancedEntry (f : Script.Function) : Prop :=
  .frame ∈ f.params ∧ Balanced false f.body

theorem balanced_rootFunction {items p p' f} (h : Gives (rootFunction items) p f p') :
    BalancedEntry f := by
  obtain ⟨ss, scope, hss, rfl⟩ := gives_rootFunction h
  have hframe : Ident.frame ∈ entryParams := by decide
  refine ⟨hframe, .append (.append (.cons ?_ ?_) (hss.balanced.append (balanced_delegation _)))
    (.ret ?_)⟩
  · exact .assign Ident.noConfusion trivial
  · exact .assign Ident.noConfusion trivial
  · exact calm_method trivial Attr.noConfusion ⟨trivial, trivial⟩

theorem balanced_blockFunction {name body p p' f} (h : Gives (blockFunction name body) p f p') :
    BalancedEntry f := by
  obtain ⟨ss, scope, hss, rfl⟩ := gives_blockFunction h
  have hframe : Ident.frame ∈ entryParams := by decide
  refine ⟨hframe, .append (.append (.cons ?_ ?_) hss.balanced) (.ret ?_)⟩
  · exact .assign Ident.noConfusion trivial
  · exact .assign Ident.noConfusion (calm_method trivial Attr.noConfusion
      ⟨trivial, obeys_ofContent name, trivial, trivial, trivial⟩)
  · exact calm_method trivial Attr.noConfusion ⟨trivial, trivial⟩

end Compile

theorem balanced_of_isCompiled {m : Module} (h : m.IsCompiled) :
    ∀ f ∈ m.functions, Compile.BalancedEntry f := by
  obtain ⟨tree, name?, file?, c, hcompile⟩ := h
  have hgives := gives_of_compileModule (Compiler.compileModule_of_compile hcompile)
  obtain ⟨pos, items, root, table, blocks, q, rfl, hroot, -, hblocks, rfl, -⟩ :=
    gives_templateModule hgives
  refine List.forall_mem_cons.2 ⟨balanced_rootFunction hroot, fun f hf => ?_⟩
  obtain ⟨entry, -, _, _, hf⟩ := (buildsBlocks_of_gives hblocks).names.2 f hf
  exact balanced_blockFunction hf

end Stencil
