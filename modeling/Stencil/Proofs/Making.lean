import Stencil.Proofs.Assembly
import Stencil.Proofs.Conduct

/-!
# What generated statements are made of

Generated statements put generated expressions together in few ways: they assign variables, publish
them, output texts, bind names in frames of their own, branch, loop, define functions and inherit
from a template. `Script.Made κ buffer bound ss` says that statements are put together in these ways
from what the `Makings` `κ` allow. A property of all generated code is proved in two steps: the
makings that it needs are there (`Fits`), so the code is made of them (`Builds.made`), and what is
made of them has the property.
-/


namespace Stencil

open List Script

/-- The names that a loop binds in its frame: those of its target, and the parts of its record. -/
def Compile.LoopNames.bound : Compile.LoopNames → List String
  | .one name => [name, "loop.index", "loop.index0", "loop.revindex", "loop.revindex0",
    "loop.first", "loop.last", "loop.length"]
  | .two key value => [key, value, "loop.index", "loop.index0", "loop.first"]

namespace Script

/-- The methods that leave lists, dictionaries and frames alone that are there. -/
def Attr.isCalm : Attr → Bool
  | .append | .set | .blocks | .rootRenderFunc => false
  | _ => true

/-- The functions that every module knows. -/
def Ident.isCore : Ident → Bool
  | .len | .list | .range => true
  | _ => false

/-- The body of a function that collects its output in a buffer. -/
def printed (buffer : Ident) (ss : List Stmt) : List Stmt :=
  .assign buffer (.list []) :: ss ++ [.ret (.joined buffer)]

/-- What statements may be made of: the identifiers that a scope may know, those that statements use
as variables, the code of expressions, the blocks that are rendered, the names that are bound in one
frame, and whether the template may inherit. -/
structure Makings where
  known : Ident → Prop := fun _ => True
  var : Ident → Prop
  expr : Expr → Prop
  block : Node.Content → Prop := fun _ => True
  frame : List String → Prop := fun _ => True
  inherits : Prop := True

/-- The temporaries after `lo` up to `hi` are variables. -/
def Makings.Temps (κ : Makings) (lo hi : Nat) : Prop :=
  ∀ k, lo ≤ k → k < hi → κ.var (.temp (k + 1))

theorem Makings.Temps.sub {κ : Makings} {lo lo' hi hi'} (h : κ.Temps lo hi) (hlo : lo ≤ lo')
    (hhi : hi' ≤ hi) : κ.Temps lo' hi' :=
  fun k hk hk' => h k (Nat.le_trans hlo hk) (Nat.lt_of_lt_of_le hk' hhi)

/-- What statements compute from the code of expressions. -/
inductive Expr.Compound (κ : Makings) : Expr → Prop where
  | emitted {e} : κ.expr e → Compound κ e
  | const (c : Constant) : Compound κ (.const c)
  | tree (n : Node) : Compound κ (.tree n)
  | name {id} : κ.var id → Compound κ (.name id)
  | orphan : Compound κ (.compare (.name .parentTemplate) [(.is, .const .null)])
  | subscript {object index} : Compound κ object → Compound κ index →
    Compound κ (.subscript object index)
  | either {left right} : Compound κ left → Compound κ right → Compound κ (.boolean .or left right)
  | binary {op left right} : Compound κ left → Compound κ right → Compound κ (.binary op left right)
  | compare {op left right} : Compound κ left → Compound κ right →
    Compound κ (.compare left [(op, right)])
  | list {items} : (∀ e ∈ items, Compound κ e) → Compound κ (.list items)
  | tuple {items} : (∀ e ∈ items, Compound κ e) → Compound κ (.tuple items)
  | empty : Compound κ (.dict [])
  | core {id e} : id.isCore = true → Compound κ e → Compound κ (.call (.name id) [e])
  | helper {field args} : field.isCalm = true → (∀ e ∈ args, Compound κ e) →
    Compound κ (.helper field args)
  | template {e} : Compound κ e → Compound κ (.method (.name .env) .getTemplate [e])
  | module {e} : Compound κ e → Compound κ (.method e .getModule [])

theorem Expr.Compound.ofContent {κ} (c : Node.Content) : (Expr.ofContent c).Compound κ := by
  cases c with
  | constant c => exact .const c
  | node n => exact .tree n

/-- What statements output: raw text, the text form of something, and what a block or an included
template renders. -/
inductive Expr.Shown (κ : Makings) : Expr → Prop where
  | raw (s : String) : Shown κ (.text s)
  | value {e} : κ.expr e → Shown κ (.helper .toStr [e])
  | block {c} : κ.block c →
    Shown κ (.call (.method (.name .context) .getBlock [.ofContent c]) entryArgs)
  | inclusion {id} : κ.var id → Shown κ (.rendered id)

/-- The statements without statements inside that code is made of, where output goes to a buffer. -/
inductive Stmt.Step (κ : Makings) (buffer : Ident) : Stmt → Prop where
  | pass : Step κ buffer .pass
  | expr {e} : e.Compound κ → Step κ buffer (.expr e)
  | publish (name : String) {id} : κ.var id → Step κ buffer (.setVariable name (.name id))
  | offer (name : String) : Step κ buffer (.addExport name)
  | assign {id e} : κ.var id → e.Compound κ → Step κ buffer (.assign id e)
  | increment {id} : κ.var id → Step κ buffer (.increment id (.int 1))
  | emit {e} : e.Shown κ → Step κ buffer (.emit buffer e)

/-- Statements that are made of what is allowed, that output to one buffer and that bind the names
`bound` in the innermost frame. -/
inductive Made (κ : Makings) : (buffer : Ident) → (bound : List String) → List Stmt → Prop where
  | nil {buffer bound} : Made κ buffer bound []
  | append {buffer bound ss ts} : Made κ buffer bound ss →
    Made κ buffer bound ts → Made κ buffer bound (ss ++ ts)
  | step {buffer bound s} : s.Step κ buffer → Made κ buffer bound [s]
  | frameSet {buffer bound name e} : name ∈ bound →
    e.Compound κ → Made κ buffer bound [.frameSet name e]
  | branch {buffer bound test body otherwise} :
    test.Compound κ → Made κ buffer bound body → Made κ buffer bound otherwise →
    Made κ buffer bound [.branch test body otherwise]
  | loop {buffer bound target source body} :
    (∀ id ∈ target.assigned, κ.var id) → source.Compound κ →
    Made κ buffer bound body → Made κ buffer bound [.loop target source body]
  | define {buffer bound name} {params : List Node.Content} {ss} :
    κ.var (.macroName name) → (∀ p ∈ params, κ.var (.localName p.text)) →
    Made κ .macroOutput [] ss →
    Made κ buffer bound ([.pushFrame] ++ [.define (.macroName name)
      (params.map fun p => .localName p.text) [(.frame, .name .frame)] (printed .macroOutput ss)] ++
      [.popFrame])
  | framed {buffer bound own ss} : κ.frame own →
    Made κ buffer own ss → Made κ buffer bound ([.pushFrame] ++ ss ++ [.popFrame])
  | inheritance {buffer bound parent} {k : Nat} : κ.inherits →
    κ.expr parent → κ.var (.temp k) → Made κ buffer bound (Compile.inheritance parent (.temp k))

namespace Made

variable {κ : Makings} {buffer : Ident} {bound : List String} {s : Stmt} {ss : List Stmt}

theorem cons (h : Made κ buffer bound [s]) (hss : Made κ buffer bound ss) :
    Made κ buffer bound (s :: ss) :=
  h.append hss

theorem assign {id : Ident} {e : Expr} (hid : κ.var id) (he : e.Compound κ) :
    Made κ buffer bound [.assign id e] :=
  .step (.assign hid he)

theorem emit {e : Expr} (he : e.Shown κ) : Made κ buffer bound [.emit buffer e] :=
  .step (.emit he)

theorem publish (name : String) {id : Ident} (hid : κ.var id) :
    Made κ buffer bound [.setVariable name (.name id)] :=
  .step (.publish name hid)

theorem offer (name : String) : Made κ buffer bound [.addExport name] :=
  .step (.offer name)

theorem flatMap {α : Type} {f : α → List Stmt} {l : List α}
    (h : ∀ a ∈ l, Made κ buffer bound (f a)) : Made κ buffer bound (l.flatMap f) := by
  induction l with
  | nil => exact .nil
  | cons a rest ih =>
    rw [flatMap_cons]
    exact (h a mem_cons_self).append (ih fun b hb => h b (mem_cons_of_mem _ hb))

theorem orPass (h : Made κ buffer bound ss) :
    Made κ buffer bound (if ss.isEmpty then [.pass] else ss) := by
  split
  · exact .step .pass
  · exact h

end Made

end Script

namespace Compile

open Script

/-! ## Whether the template inherits -/

/-- Whether a node makes its template inherit from another one. -/
def isInherit : Node → Bool
  | .inherit .. => true
  | _ => false

/-- Compiling some nodes leaves it open whether the template inherits, unless one of them makes it
inherit. -/
def Turns (p : Progress) (ns : List Node) (p' : Progress) : Prop :=
  p'.child = p.child ∨ p.child = false ∧ ∃ d ∈ ns, isInherit d = true

namespace Turns

variable {p q p' : Progress} {ns ns' : List Node}

theorem of_advances (h : p.Advances p') : Turns p ns p' :=
  .inl h.child_eq

theorem mono (h : Turns p ns p') (hns : ns ⊆ ns') : Turns p ns' p' :=
  h.imp_right fun ⟨hchild, d, hd, hinherit⟩ => ⟨hchild, d, hns hd, hinherit⟩

theorem trans (h : Turns p ns q) (h' : Turns q ns p') : Turns p ns p' := by
  rcases h with h | h
  · rwa [Turns, h] at h'
  · exact .inr h

theorem below {n d} (h : Turns p (d :: d.descendants) p') (hd : d ∈ n.descendants) :
    Turns p (n :: n.descendants) p' :=
  h.mono (Subset.trans (Node.cons_subset_descendants hd) (subset_cons_self _ _))

end Turns

attribute [local simp] Node.descendants Node.optional LoopNames.bound

mutual

theorem Builds.turns {site scope scope' n p p' ss} :
    Builds site scope n p ss scope' p' → Turns p (n :: n.descendants) p'
  | .text | .block _ => .inl rfl
  | .output h => .of_advances h.advances
  | .sequence h => h.turns.mono (subset_cons_self _ _)
  | .conditional he h =>
    (Turns.of_advances he.advances).trans (h.turns.below (by simp))
  | .alternative he h h' =>
    ((Turns.of_advances he.advances).trans (h.turns.below (by simp))).trans
      (h'.turns.below (by simp))
  | .sequenceLoop _ he h | .pairLoop _ he h =>
    Turns.trans (.inl he.advances.child_eq) (h.turns.below (by simp))
  | .assign he _ | .inclusion he | .importAll he => .inl he.advances.child_eq
  | .importNames he => .inl he.advances.child_eq
  | .macroDef _ _ h hes =>
    (h.turns.below (by simp)).trans (.of_advances hes.advances)
  | .inherit hchild _ => .inr ⟨hchild, _, mem_cons_self, rfl⟩

theorem BuildsAll.turns {site scope scope' ns p p' ss} :
    BuildsAll site scope ns p ss scope' p' → Turns p (Node.forest ns) p'
  | .nil => .inl rfl
  | .cons h hrest =>
    (h.turns.mono (subset_append_left _ _)).trans (hrest.turns.mono (subset_append_right _ _))

end

/-! ## The makings of generated code -/

/-- The names that a node gives: what it carries, or the names that it imports. -/
def givenNames : Node → List String
  | .importAll _ _ target => [target]
  | .importNames _ _ names => (importedNames names).map (·.2)
  | n => n.content?.toList.map Node.Content.text

/-- The makings are enough for the code of some nodes. -/
structure Fits (κ : Makings) (p : Progress) (ns : List Node) : Prop where
  known {id} : κ.var id → κ.known id
  emits {n scope q q' e} : n ∈ ns →
    Emits scope n q e q' → scope.Only κ.known → κ.Temps q.temps q'.temps → κ.expr e
  names {n} : n ∈ ns → ∀ x ∈ givenNames n, κ.var (.localName x) ∧ κ.var (.macroName x)
  block {pos name body c} : .block pos name body ∈ ns → name.content? = some c → κ.block c
  loop {pos target source body names} :
    .loop pos target source body ∈ ns → Direct.loopNames? target = some names →
    κ.frame names.bound
  inherits {n} : p.child = false → n ∈ ns → isInherit n = true → κ.inherits

namespace Fits

variable {κ : Makings} {p p' : Progress} {ns ns' : List Node} {n d : Node}

theorem mono (h : Fits κ p ns) (hns : ns' ⊆ ns) (hp : p'.child = false → p.child = false) :
    Fits κ p' ns' where
  known := h.known
  emits hn := h.emits (hns hn)
  names hn := h.names (hns hn)
  block hn := h.block (hns hn)
  loop hn := h.loop (hns hn)
  inherits hchild hn := h.inherits (hp hchild) (hns hn)

theorem later (h : Fits κ p ns) (ht : Turns p ns' p') : Fits κ p' ns :=
  h.mono (Subset.refl _) fun hp' => ht.elim (fun heq => heq ▸ hp') (·.1)

theorem below (h : Fits κ p (n :: n.descendants)) (hd : d ∈ n.descendants)
    (hp : p'.child = p.child) : Fits κ p' (d :: d.descendants) :=
  h.mono (Subset.trans (Node.cons_subset_descendants hd) (subset_cons_self _ _)) (hp ▸ ·)

theorem content (h : Fits κ p ns) {c} (hn : n ∈ ns) (hc : n.content? = some c) :
    κ.var (.localName c.text) ∧ κ.var (.macroName c.text) := by
  refine h.names hn _ ?_
  cases n <;> cases hc <;> exact mem_singleton_self _

theorem params {params cs} (h : Fits κ p (Node.forest params)) (hparams : NamesParams params cs) :
    ∀ c ∈ cs, κ.var (.localName c.text) := by
  induction hparams with
  | nil => exact forall_mem_nil _
  | @cons n name c rest cs hname hc _ ih =>
    have hmem : name ∈ n.descendants := by
      cases n <;> cases hname <;> simp [Node.descendants]
    refine forall_mem_cons.2 ⟨(h.content ?_ hc).1, ih (h.mono ?_ id)⟩
    · exact mem_append_left _ (mem_cons_of_mem _ hmem)
    · exact subset_append_right _ _

end Fits

/-! ## The code of statements -/

section

variable {κ : Makings} {buffer : Ident} {bound : List String} {scope : Scope Ident}

theorem compound_pair {a b : Expr} (ha : a.Compound κ) (hb : b.Compound κ) :
    ∀ e ∈ [a, b], e.Compound κ :=
  forall_mem_cons.2 ⟨ha, forall_mem_singleton.2 hb⟩

theorem made_store {id : Ident} (h : κ.var id) (name : String) :
    Made κ buffer bound (store id name) := by
  refine (Made.publish name h).cons ?_
  split
  · exact .nil
  · exact .offer name

variable {c : Node.Content} {name : String} {e : Expr} {index value : Ident} {ss : List Stmt}

theorem made_publication (child : Bool) (h : κ.var (.localName c.text)) :
    Made κ buffer bound (publication child c) := by
  unfold publication
  split
  · split
    · exact .nil
    · refine .append ?_ (.publish _ h)
      split
      · exact .nil
      · exact .offer _
  · exact .nil

theorem made_publishImport (child : Bool) (h : κ.var (.localName name)) :
    Made κ buffer bound (publishImport child name) := by
  unfold publishImport
  split
  · exact .nil
  · exact .publish name h

theorem made_blockReference (site : Site) (h : κ.block c) :
    Made κ site.buffer bound [blockReference site c] := by
  unfold blockReference
  split
  · exact .branch .orphan (.emit (.block h)) .nil
  · exact .emit (.block h)

theorem compound_moduleOf (he : e.Compound κ) : (moduleOf e).Compound κ :=
  .module (.template he)

theorem made_importName (child : Bool) {template exports : Ident} (ht : κ.var template)
    (he : κ.var exports) (name : String) {bound' : String} (hbound : κ.var (.localName bound')) :
    Made κ buffer bound (importName child template exports name bound') := by
  refine .cons (.branch (.compare (.const _) (.name he)) ?_ ?_) (made_publishImport child hbound)
  · exact .assign hbound (.subscript (.name he) (.const _))
  · exact .step (.expr (.helper rfl (compound_pair (.name ht) (.const _))))

/-- What a round of a loop over a sequence binds in the frame of the loop. -/
theorem made_sequenceRecord {length : Ident} (hindex : κ.var index) (hlength : κ.var length)
    (hvalue : κ.var value) :
    Made κ buffer (LoopNames.one name).bound (sequenceRecord name index length value) := by
  refine .cons (.frameSet (by simp) (.name hvalue)) ?_
  refine .cons (.frameSet (by simp) (.binary (.name hindex) (.const _))) ?_
  refine .cons (.frameSet (by simp) (.name hindex)) ?_
  refine .cons (.frameSet (by simp) (.binary (.name hlength) (.name hindex))) ?_
  refine .cons (.frameSet (by simp)
    (.binary (.binary (.name hlength) (.name hindex)) (.const _))) ?_
  refine .cons (.frameSet (by simp) (.compare (.name hindex) (.const _))) ?_
  refine .cons (.frameSet (by simp)
    (.compare (.name hindex) (.binary (.name hlength) (.const _)))) ?_
  exact .frameSet (by simp) (.name hlength)

/-- A loop over a sequence binds its names in the frame that was opened for it. -/
theorem made_sequenceLoop {arr length : Ident} (hindex : κ.var index) (harr : κ.var arr)
    (hlength : κ.var length) (hvalue : κ.var value) (he : κ.expr e)
    (hss : Made κ buffer (LoopNames.one name).bound ss) :
    Made κ buffer (LoopNames.one name).bound (sequenceLoop name index arr length value e ss) := by
  have hsource : Expr.Compound κ (.boolean .or e (.tuple [])) :=
    .either (.emitted he) (.tuple (forall_mem_nil _))
  refine .cons (.assign harr (.core rfl hsource)) ?_
  refine .cons (.assign hlength (.core rfl (.name harr))) ?_
  refine .loop (forall_mem_singleton.2 hindex) (.core rfl (.name hlength)) ?_
  exact .append (.cons (.assign hvalue (.subscript (.name harr) (.name hindex)))
    (made_sequenceRecord hindex hlength hvalue)) hss

theorem made_pairRecord {keyName valueName : String} {key : Ident} (hindex : κ.var index)
    (hkey : κ.var key) (hvalue : κ.var value) :
    Made κ buffer (LoopNames.two keyName valueName).bound
      (pairRecord keyName valueName index key value) := by
  refine .cons (.frameSet (by simp) (.name hkey)) ?_
  refine .cons (.frameSet (by simp) (.name hvalue)) ?_
  refine .cons (.frameSet (by simp) (.binary (.name hindex) (.const _))) ?_
  refine .cons (.frameSet (by simp) (.name hindex)) ?_
  exact .frameSet (by simp) (.compare (.name hindex) (.const _))

/-- So does a loop over pairs. -/
theorem made_pairLoop {keyName valueName : String} {arr key : Ident} (hindex : κ.var index)
    (harr : κ.var arr) (hkey : κ.var key) (hvalue : κ.var value) (he : κ.expr e)
    (hss : Made κ buffer (LoopNames.two keyName valueName).bound ss) :
    Made κ buffer (LoopNames.two keyName valueName).bound
      (pairLoop keyName valueName index arr key value e ss) := by
  refine .cons (.assign harr (.either (.emitted he) .empty)) (.cons (.assign hindex (.const _)) ?_)
  refine .loop (forall_mem_cons.2 ⟨hkey, forall_mem_singleton.2 hvalue⟩)
    (.helper rfl (forall_mem_singleton.2 (.name harr))) ?_
  exact .append (.cons (.step (.increment hindex)) (made_pairRecord hindex hkey hvalue)) hss

/-- A macro is defined in a frame of its own, which is closed before anything is bound in it. -/
theorem made_macroDefinition {names : List Node.Content} {es : List Expr}
    (hc : κ.var (.localName c.text) ∧ κ.var (.macroName c.text))
    (hnames : ∀ c ∈ names, κ.var (.localName c.text)) (hes : ∀ e ∈ es, e.Compound κ)
    (hss : Made κ .macroOutput [] ss) : Made κ buffer bound (macroDefinition c names es ss) := by
  refine Made.append (.define hc.2 hnames hss) (.assign hc.1 (.helper rfl ?_))
  simp only [forall_mem_cons, not_mem_nil, false_implies, implies_true, and_true]
  exact ⟨.name hc.2, .ofContent c, .list hes, .const _, .const _, .const _⟩

theorem BuildsOutputs.made {items ns : List Node} {p p' r : Progress}
    (h : BuildsOutputs scope buffer items p ss p') (hκ : Fits κ r ns) (hitems : items ⊆ ns)
    (hs : scope.Only κ.known) (ht : κ.Temps p.temps p'.temps) :
    Made κ buffer bound ss := by
  induction h with
  | nil => exact .nil
  | text h ih =>
    have hrest := ih (cons_subset.1 hitems).2 ht
    split
    · exact hrest
    · exact .cons (.emit (.raw _)) hrest
  | expr _ he h ih =>
    obtain ⟨hfirst, hrest⟩ := cons_subset.1 hitems
    have htemps := ht.sub (Nat.le_refl _) h.advances.temps_le
    exact .cons (.emit (.value (hκ.emits hfirst he hs htemps)))
      (ih hrest (ht.sub he.advances.temps_le (Nat.le_refl _)))

theorem BuildsSignature.compound {params ns : List Node} {p p' r es}
    (h : BuildsSignature scope params p es p') (hκ : Fits κ r ns)
    (hparams : Node.forest params ⊆ ns) (hs : scope.Only κ.known) (ht : κ.Temps p.temps p'.temps) :
    ∀ e ∈ es, e.Compound κ := by
  induction h with
  | nil => exact forall_mem_nil _
  | required _ _ ih =>
    have hrest := ih (Subset.trans (subset_append_right _ _) hparams) ht
    exact forall_mem_cons.2 ⟨.tuple (compound_pair (.ofContent _) (.const _)), hrest⟩
  | optional _ he h ih =>
    have hrest := ih (Subset.trans (subset_append_right _ _) hparams)
      (ht.sub he.advances.temps_le (Nat.le_refl _))
    have hdefault := hκ.emits (hparams (by simp [Node.forest])) he hs
      (ht.sub (Nat.le_refl _) h.advances.temps_le)
    exact forall_mem_cons.2 ⟨.tuple (compound_pair (.ofContent _) (.emitted hdefault)), hrest⟩

end

mutual

/-- The code of a statement is made of what is enough for the statement and the nodes below it,
whatever frame it stands in, and so is what the scope after it knows. -/
theorem Builds.made {κ : Makings} {site : Site} {scope scope'} {n : Node} {p p' ss}
    (h : Builds site scope n p ss scope' p') (hκ : Fits κ p (n :: n.descendants))
    (hs : scope.Only κ.known) (ht : κ.Temps p.temps p'.temps) :
    (∀ bound, Made κ site.buffer bound ss) ∧ scope'.Only κ.known := by
  cases h with
  | text =>
    refine ⟨fun _ => ?_, hs⟩
    split
    · exact .nil
    · exact .emit (.raw _)
  | output h =>
    exact ⟨fun _ => h.made hκ (fun n hn => mem_cons_of_mem _ (Node.mem_forest hn)) hs ht, hs⟩
  | sequence h => exact h.made (hκ.mono (subset_cons_self _ _) id) hs ht
  | conditional he h =>
    have htest := hκ.emits (by simp) he hs (ht.sub (Nat.le_refl _) h.temps_le)
    obtain ⟨hss, hs'⟩ := h.made (hκ.below (by simp) he.advances.child_eq) hs
      (ht.sub he.advances.temps_le (Nat.le_refl _))
    exact ⟨fun bound => .branch (.emitted htest) (hss bound).orPass .nil, hs'⟩
  | alternative he h h' =>
    have hle := he.advances.temps_le
    have htest := hκ.emits (by simp) he hs
      (ht.sub (Nat.le_refl _) (Nat.le_trans h.temps_le h'.temps_le))
    obtain ⟨hss, hs'⟩ := h.made (hκ.below (by simp) he.advances.child_eq) hs
      (ht.sub hle h'.temps_le)
    have hother := hκ.later ((Turns.of_advances he.advances).trans h.turns)
    obtain ⟨hss', hs''⟩ := h'.made (hother.below (by simp) rfl) hs'
      (ht.sub (Nat.le_trans hle h.temps_le) (Nat.le_refl _))
    exact ⟨fun bound => .branch (.emitted htest) (hss bound).orPass (hss' bound), hs''⟩
  | sequenceLoop hnames he h =>
    have hle := he.advances.temps_le
    have hle' := h.temps_le
    simp only at hle hle'
    have hsource := hκ.emits (by simp) he hs.push (ht.sub (Nat.le_add_right _ 2) (by omega))
    obtain ⟨hss, -⟩ := h.made (hκ.below (by simp) he.advances.child_eq)
      (hs.push.set _ (hκ.known (ht _ (by omega) (by omega)))) fun k hlo =>
        ht k (by simp at hlo; omega)
    exact ⟨fun _ => .framed (hκ.loop mem_cons_self hnames)
      (made_sequenceLoop (ht _ (by omega) (by omega)) (ht _ (by omega) (by omega))
        (ht _ (by omega) (by omega)) (ht _ (by omega) (by omega)) hsource (hss _)), hs⟩
  | pairLoop hnames he h =>
    have hle := he.advances.temps_le
    have hle' := h.temps_le
    simp only at hle hle'
    have hsource := hκ.emits (by simp) he hs.push (ht.sub (Nat.le_add_right _ 2) (by omega))
    obtain ⟨hss, -⟩ := h.made (hκ.below (by simp) he.advances.child_eq)
      ((hs.push.set _ (hκ.known (ht _ (by omega) (by omega)))).set _
        (hκ.known (ht _ (by omega) (by omega)))) fun k hlo => ht k (by simp at hlo; omega)
    exact ⟨fun _ => .framed (hκ.loop mem_cons_self hnames)
      (made_pairLoop (ht _ (by omega) (by omega)) (ht _ (by omega) (by omega))
        (ht _ (by omega) (by omega)) (ht _ (by omega) (by omega)) hsource (hss _)), hs⟩
  | assign he _ =>
    have hle := he.advances.temps_le
    simp only at hle
    have hvalue := hκ.emits (by simp) he hs (ht.sub (Nat.le_succ _) (Nat.le_refl _))
    have htemp := ht p.temps (Nat.le_refl _) (by omega)
    exact ⟨fun _ => .cons (.assign htemp (.emitted hvalue))
      (.flatMap fun name _ => made_store htemp name), hs⟩
  | macroDef hc hparams h hes =>
    have hname := hκ.content (by simp) hc
    have hnames := (hκ.mono (fun x hx => by simp [hx]) id).params hparams
    have hinner := Scope.Only.foldl
      (fun c hc _ h => only_bindLocal h (hκ.known (hnames c hc))) hs.push
    obtain ⟨hss, -⟩ := h.made (hκ.below (by simp) rfl) hinner
      (ht.sub (Nat.le_refl _) hes.advances.temps_le)
    have hsignature := hes.compound hκ (fun x hx => by simp [hx]) hs
      (ht.sub h.temps_le (Nat.le_refl _))
    exact ⟨fun _ => (made_macroDefinition hname hnames hsignature (hss [])).append
      (made_publication _ hname.1), only_bindLocal hs (hκ.known hname.1)⟩
  | block hc => exact ⟨fun _ => made_blockReference site (hκ.block mem_cons_self hc), hs⟩
  | inherit hchild he =>
    have hparent := hκ.emits (by simp) he hs (ht.sub (Nat.le_refl _) (Nat.le_succ _))
    exact ⟨fun _ => .inheritance (hκ.inherits hchild mem_cons_self rfl) hparent
      (ht _ he.advances.temps_le (Nat.lt_succ_self _)), hs⟩
  | inclusion he =>
    have hle := he.advances.temps_le
    simp only at hle
    have htemplate := hκ.emits (by simp) he hs (ht.sub (Nat.le_succ _) (Nat.le_refl _))
    have htemp := ht p.temps (Nat.le_refl _) (by omega)
    exact ⟨fun _ => .cons (.assign htemp (.template (.emitted htemplate)))
      (.emit (.inclusion htemp)), hs⟩
  | importAll he =>
    have htemplate := hκ.emits (by simp) he hs ht
    have htarget := (hκ.names mem_cons_self _ (mem_singleton_self _)).1
    exact ⟨fun _ => .cons (.assign htarget (compound_moduleOf (.emitted htemplate)))
      (made_publishImport _ htarget), hs.set _ (hκ.known htarget)⟩
  | importNames he =>
    have hle := he.advances.temps_le
    simp only at hle
    have htemplate := hκ.emits (by simp) he hs (ht.sub (Nat.le_add_right _ 2) (Nat.le_refl _))
    have hnames : ∀ i ∈ importedNames _, κ.var (.localName i.2) := fun i hi =>
      (hκ.names mem_cons_self _ (mem_map_of_mem hi)).1
    have htemp := ht p.temps (Nat.le_refl _) (by omega)
    have htemp' := ht (p.temps + 1) (Nat.le_succ _) (by omega)
    refine ⟨fun _ => .append (.cons (.assign htemp (.emitted htemplate))
      (.assign htemp' (compound_moduleOf (.name htemp)))) (.flatMap fun i hi => ?_), ?_⟩
    · exact made_importName _ htemp htemp' _ (hnames i hi)
    · exact .foldl (fun i hi _ h => h.set _ (hκ.known (hnames i hi))) hs

theorem BuildsAll.made {κ : Makings} {site scope scope'} {ns : List Node} {p p' ss}
    (h : BuildsAll site scope ns p ss scope' p') (hκ : Fits κ p (Node.forest ns))
    (hs : scope.Only κ.known) (ht : κ.Temps p.temps p'.temps) :
    (∀ bound, Made κ site.buffer bound ss) ∧ scope'.Only κ.known := by
  cases h with
  | nil => exact ⟨fun _ => .nil, hs⟩
  | cons h hrest =>
    obtain ⟨hss, hs'⟩ := h.made (hκ.mono (subset_append_left _ _) id) hs
      (ht.sub (Nat.le_refl _) hrest.temps_le)
    obtain ⟨hss', hs''⟩ := hrest.made ((hκ.later h.turns).mono (subset_append_right _ _) id)
      hs' (ht.sub h.temps_le (Nat.le_refl _))
    exact ⟨fun bound => (hss bound).append (hss' bound), hs''⟩

end

/-! ## Code that keeps to an access -/

/-- What is allowed is enough for code that is made of the given makings: it reads what its scope
and its function know, it assigns variables, takes attributes that are no output and no binding in a
frame, and it uses the context. -/
structure Serves (π : Access) (κ : Makings) : Prop where
  expr {e} : κ.expr e ↔ e.Obeys π
  known {id} : κ.known id → π.reads id
  var {id} : κ.var id → κ.known id ∧ π.reads id ∧ π.writes id
  fixed : ∀ id ∈ [Ident.env, .runtime, .parentTemplate, .len, .list, .range], π.reads id
  frame : π.reads .frame
  fields {field} : field.isCalm = true → π.fields field
  search (x : String) : (Expr.helper .resolve [.name .context, .name .frame, .text x]).Obeys π
  publish (name : String) {id} : κ.var id →
    (Expr.method (.name .context) .setVariable [.text name, .name id]).Obeys π
  offer (name : String) : (Expr.method (.name .context) .addExport [.text name]).Obeys π
  copied : (Expr.method (.name .context) .getVariables []).Obeys π
  block {c} : κ.block c → (Expr.call
    (.method (.name .context) .getBlock [.ofContent c]) Expr.entryArgs).Obeys π
  temp (k : Nat) : κ.var (.temp k)
  named (x : String) : κ.var (.localName x) ∧ κ.var (.macroName x)

section

variable {π : Access} {κ : Makings}

variable {es : List Expr}

theorem obeyIn_iff : ObeyIn π es ↔ ∀ e ∈ es, e.Obeys π := by
  induction es with
  | nil => exact ⟨fun _ => forall_mem_nil _, fun _ => trivial⟩
  | cons e rest ih => rw [ObeyIn, forall_mem_cons, ih]

theorem obeys_ofContent (c : Node.Content) : (Expr.ofContent c).Obeys π := by
  cases c <;> trivial

theorem Serves.method (hs : Serves π κ) {object field} (hfield : field.isCalm = true)
    (ho : object.Obeys π)
    (h : ObeyIn π es) : (Expr.method object field es).Obeys π :=
  .inr ⟨⟨hs.fields hfield, ho⟩, h⟩

theorem Serves.helper (hs : Serves π κ) {field} (hfield : field.isCalm = true) (h : ObeyIn π es) :
    (Expr.helper field es).Obeys π :=
  hs.method hfield (hs.fixed _ (by simp)) h

variable {scope : Scope Ident}

theorem Serves.reference (hs : Serves π κ) (hscope : scope.Only κ.known) (x : String) :
    (reference scope x).Obeys π := by
  unfold Compile.reference
  split
  · rename_i id hid
    exact hs.known (hscope x id hid)
  · exact hs.search x

mutual

/-- The code of an expression keeps to what is enough. -/
theorem Emits.obeys (hs : Serves π κ) (hscope : scope.Only κ.known) {n p p' e} :
    Emits scope n p e p' → e.Obeys π
  | .literal | .text => trivial
  | .symbol => hs.reference hscope _
  | .group h | .unary _ h => h.obeys hs hscope
  | .tuple _ h | .array h => h.obeys hs hscope
  | .dict h => h.obeys hs hscope
  | .boolean _ hl hr | .binary _ hl hr => ⟨hl.obeys hs hscope, hr.obeys hs hscope⟩
  | .floorDiv hl hr => hs.helper rfl ⟨⟨hl.obeys hs hscope, hr.obeys hs hscope⟩, trivial⟩
  | .power hl hr | .lookup _ _ hl hr =>
    hs.helper rfl ⟨hl.obeys hs hscope, hr.obeys hs hscope, trivial⟩
  | .compare h hrest => ⟨h.obeys hs hscope, hrest.obeys hs hscope⟩
  | .call _ hargs hf => by
    have htemp (k : Nat) := (hs.var (hs.temp k)).2
    obtain ⟨hpositional, hkeywords⟩ := hargs.obeys hs hscope
    refine ⟨hs.helper rfl ⟨⟨(htemp _).2, hf.obeys hs hscope⟩, trivial⟩, ?_, ?_⟩
    · exact .inr ⟨(htemp _).1, hpositional, hkeywords, trivial⟩
    · exact .inr ⟨(htemp _).1, hpositional⟩
  | .filter h => .inr ⟨hs.method rfl (hs.fixed _ (by simp)) ⟨trivial, trivial⟩,
      (h.obeys hs hscope).1⟩

theorem EmitsAll.obeys (hs : Serves π κ) (hscope : scope.Only κ.known) {ns p p' es} :
    EmitsAll scope ns p es p' → ObeyIn π es
  | .nil => trivial
  | .cons h hrest => ⟨h.obeys hs hscope, hrest.obeys hs hscope⟩

theorem EmitsEntries.obeys (hs : Serves π κ) (hscope : scope.Only κ.known) {ns p p' es} :
    EmitsEntries scope ns p es p' → ObeyInEntries π es
  | .nil => trivial
  | .cons _ _ h hrest => ⟨trivial, h.obeys hs hscope, hrest.obeys hs hscope⟩

theorem EmitsOperands.obeys (hs : Serves π κ) (hscope : scope.Only κ.known) {ns p p' es} :
    EmitsOperands scope ns p es p' → ObeyInOperands π es
  | .nil => trivial
  | .cons _ h hrest => ⟨h.obeys hs hscope, hrest.obeys hs hscope⟩

theorem EmitsArguments.obeys (hs : Serves π κ) (hscope : scope.Only κ.known)
    {ns p p' positional keywords} : EmitsArguments scope ns p positional keywords p' →
    ObeyIn π positional ∧ ObeyInEntries π keywords
  | .nil => ⟨trivial, trivial⟩
  | .keyword _ h hrest =>
    have hr := hrest.obeys hs hscope
    ⟨hr.1, obeys_ofContent _, h.obeys hs hscope, hr.2⟩
  | .positional _ h hrest =>
    have hr := hrest.obeys hs hscope
    ⟨⟨h.obeys hs hscope, hr.1⟩, hr.2⟩

end

variable (hs : Serves π κ)

include hs

/-- What is enough for expressions is enough for statements, apart from what says which blocks are
rendered, which names are bound and whether the template inherits. -/
theorem Serves.fits {p ns} (hframe : ∀ names, κ.frame names)
    (hblock : ∀ pos name body c, .block pos name body ∈ ns → name.content? = some c → κ.block c)
    (hinherits : p.child = false → ∀ n ∈ ns, isInherit n = true → κ.inherits) : Fits κ p ns where
  known h := (hs.var h).1
  emits _ h hscope _ := hs.expr.2 (h.obeys hs hscope)
  names _ x _ := hs.named x
  block hn hc := hblock _ _ _ _ hn hc
  loop _ _ := hframe _
  inherits hchild hn := hinherits hchild _ hn

theorem Serves.compound {e : Expr} (h : e.Compound κ) : e.Obeys π := by
  induction h with
  | emitted he => exact hs.expr.1 he
  | const c | tree n => trivial
  | name hid => exact (hs.var hid).2.1
  | orphan => exact ⟨hs.fixed _ (by simp), trivial, trivial⟩
  | subscript _ _ ih ih' | either _ _ ih ih' | binary _ _ ih ih' => exact ⟨ih, ih'⟩
  | compare _ _ ih ih' => exact ⟨ih, ih', trivial⟩
  | list _ ih | tuple _ ih => exact obeyIn_iff.2 ih
  | empty => trivial
  | @core id e hid _ ih =>
    refine .inr ⟨hs.fixed id ?_, ih, trivial⟩
    cases id <;> simp_all [Ident.isCore]
  | helper hfield _ ih => exact hs.helper hfield (obeyIn_iff.2 ih)
  | template _ ih => exact hs.method rfl (hs.fixed _ (by simp)) ⟨ih, trivial⟩
  | module _ ih => exact hs.method rfl ih trivial

theorem Serves.shown {e : Expr} (h : e.Shown κ) : e.Obeys π := by
  cases h with
  | raw s => trivial
  | value he => exact hs.helper rfl ⟨hs.expr.1 he, trivial⟩
  | block hc => exact hs.block hc
  | inclusion hid => exact hs.method rfl (hs.var hid).2.1 ⟨hs.copied, hs.frame, trivial⟩

theorem Serves.step {buffer} (happend : π.fields .append) (hb : π.reads buffer) {s : Stmt}
    (h : s.Step κ buffer) (defines : List Ident → List Stmt → Prop) :
    s.Obeys { π with defines } := by
  cases h with
  | pass => trivial
  | expr he => exact hs.compound he
  | publish name hid => exact hs.publish name hid
  | offer name => exact hs.offer name
  | assign hid he => exact ⟨(hs.var hid).2.2, hs.compound he⟩
  | increment hid => exact ⟨(hs.var hid).2.1, (hs.var hid).2.2, trivial⟩
  | emit he => exact .inr ⟨⟨happend, hb⟩, hs.shown he, trivial⟩

theorem Serves.target {t : Target} (h : ∀ id ∈ t.assigned, κ.var id) : t.Obeys π :=
  fun id hid => (hs.var (h id hid)).2.2

end

end Compile

end Stencil
