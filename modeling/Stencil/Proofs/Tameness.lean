import Stencil.Proofs.Printing

/-!
# Templates that call nothing

A tree is tame if it holds no call, uses built-in filters only, and binds in no loop a path that
leads into another path which the loop binds (`Node.Tame`). The code of a tame tree calls nothing
either, except entry points, built-in filters and methods that leave lists and dictionaries alone.
It appends to the buffer of its function, and it binds names only in a frame that it has opened
itself, under paths none of which leads into another one (`Script.Tame`, `Builds.tame`).
-/

namespace Stencil

open Compile List Script

/-! ## Trees -/

/-- No path leads into another one. -/
def Unnested (paths : List (List String)) : Prop :=
  ∀ p ∈ paths, ∀ q ∈ paths, p <+: q → p = q

instance (paths : List (List String)) : Decidable (Unnested paths) :=
  inferInstanceAs (Decidable (∀ p ∈ paths, ∀ q ∈ paths, p <+: q → p = q))

/-- The paths that a loop binds in its frame. -/
def Compile.LoopNames.paths (names : LoopNames) : List (List String) :=
  names.bound.map pathParts

namespace Node

/-- A node that is no call, and no filter but a built-in one. -/
def CallsNothing (builtin : String → Prop) : Node → Prop
  | .call .. => False
  | .filter _ (.symbol _ name) _ => builtin name
  | _ => True

/-- A node that is no loop which binds a path inside another one. -/
def BindsApart : Node → Prop
  | .loop _ target _ _ => ∀ names, Direct.loopNames? target = some names → Unnested names.paths
  | _ => True

/-- A tree of such nodes. -/
def Tame (builtin : String → Prop) (n : Node) : Prop :=
  ∀ d ∈ n :: n.descendants, d.CallsNothing builtin ∧ d.BindsApart

instance (builtin : String → Prop) [DecidablePred builtin] (n : Node) :
    Decidable (n.CallsNothing builtin) := by
  unfold CallsNothing
  split <;> infer_instance

instance (n : Node) : Decidable n.BindsApart := by
  unfold BindsApart
  split <;> infer_instance

instance (builtin : String → Prop) [DecidablePred builtin] (n : Node) :
    Decidable (n.Tame builtin) :=
  inferInstanceAs (Decidable (∀ d ∈ n :: n.descendants, d.CallsNothing builtin ∧ d.BindsApart))

namespace Tame

variable {builtin : String → Prop} {n : Node}

theorem self (h : n.Tame builtin) : n.CallsNothing builtin ∧ n.BindsApart :=
  h n mem_cons_self

theorem descendant (h : n.Tame builtin) {d} (hd : d ∈ n.descendants) : d.Tame builtin :=
  fun _ he => h _ (mem_cons_of_mem _ (cons_subset_descendants hd he))

theorem child (h : n.Tame builtin) {d} (hd : d ∈ n.children) : d.Tame builtin :=
  h.descendant (mem_descendants_of_mem_children hd)

end Tame

end Node

/-! ## Code -/

namespace Script

/-- Identifiers without a special meaning for frames, buffers and the functions that every module
knows. -/
def Ident.isPlain (id : Ident) : Bool :=
  !id.isBuffer && !id.isCore && id != .frame

/-- Expressions that call nothing but entry points, built-in filters, functions that every module
knows, and methods that leave lists and dictionaries alone. -/
inductive Expr.Tame (builtin : String → Prop) : Expr → Prop where
  | const (c : Constant) : Tame builtin (.const c)
  | tree (n : Node) : Tame builtin (.tree n)
  | name (id : Ident) : Tame builtin (.name id)
  | attr {object field} : Tame builtin object → Tame builtin (.attr object field)
  | subscript {object index} : Tame builtin object → Tame builtin index →
    Tame builtin (.subscript object index)
  | method {object field args} : field.isCalm = true →
    Tame builtin object → (∀ e ∈ args, Tame builtin e) → Tame builtin (.method object field args)
  | core {id args} : id.isCore = true → (∀ e ∈ args, Tame builtin e) →
    Tame builtin (.call (.name id) args)
  | filter {name args} : builtin name → (∀ e ∈ args, Tame builtin e) →
    Tame builtin (.call (.method (.name .env) .getFilter [.text name]) args)
  | block (c : Node.Content) :
    Tame builtin (.call (.method (.name .context) .getBlock [.ofContent c]) entryArgs)
  | parent : Tame builtin (.method (.name .parentTemplate) .rootRenderFunc entryArgs)
  | list {items} : (∀ e ∈ items, Tame builtin e) → Tame builtin (.list items)
  | tuple {items} : (∀ e ∈ items, Tame builtin e) → Tame builtin (.tuple items)
  | dict {entries} : (∀ p ∈ entries, Tame builtin p.1) →
    (∀ p ∈ entries, Tame builtin p.2) → Tame builtin (.dict entries)
  | boolean {op left right} : Tame builtin left → Tame builtin right →
    Tame builtin (.boolean op left right)
  | binary {op left right} : Tame builtin left → Tame builtin right →
    Tame builtin (.binary op left right)
  | unary {op operand} : Tame builtin operand → Tame builtin (.unary op operand)
  | compare {first rest} : Tame builtin first →
    (∀ p ∈ rest, Tame builtin p.2) → Tame builtin (.compare first rest)

theorem Expr.Tame.ofContent {builtin} (c : Node.Content) : (Expr.ofContent c).Tame builtin := by
  cases c with
  | constant c => exact .const c
  | node n => exact .tree n

/-- Statements that call nothing but what tame expressions call, append to one buffer, and bind
names only in a frame that they have opened themselves: under the given `paths` in the innermost
frame, and in the frames that they open under paths that are not nested. -/
inductive Tame (builtin : String → Prop) : (buffer : Ident) → (paths : List (List String)) →
    List Stmt → Prop where
  | nil {buffer paths} : Tame builtin buffer paths []
  | append {buffer paths ss ts} : Tame builtin buffer paths ss →
    Tame builtin buffer paths ts → Tame builtin buffer paths (ss ++ ts)
  | expr {buffer paths e} : e.Tame builtin → Tame builtin buffer paths [.expr e]
  | assign {buffer paths id e} : id.isPlain = true →
    e.Tame builtin → Tame builtin buffer paths [.assign id e]
  | increment {buffer paths id e} : id.isPlain = true →
    e.Tame builtin → Tame builtin buffer paths [.increment id e]
  | emit {buffer paths e} : e.Tame builtin → Tame builtin buffer paths [.emit buffer e]
  | frameSet {buffer paths name e} : pathParts name ∈ paths →
    e.Tame builtin → Tame builtin buffer paths [.frameSet name e]
  | ret {buffer paths e} : e.Tame builtin → Tame builtin buffer paths [.ret e]
  | pass {buffer paths} : Tame builtin buffer paths [.pass]
  | branch {buffer paths test body otherwise} :
    test.Tame builtin → Tame builtin buffer paths body → Tame builtin buffer paths otherwise →
    Tame builtin buffer paths [.branch test body otherwise]
  | loop {buffer paths target source body} :
    (∀ id ∈ target.assigned, id.isPlain = true) → source.Tame builtin →
    Tame builtin buffer paths body → Tame builtin buffer paths [.loop target source body]
  | define {buffer paths name params ss} :
    name.isPlain = true → (∀ id ∈ params, id.isPlain = true) → Tame builtin .macroOutput [] ss →
    Tame builtin buffer paths
      [.define name params [(.frame, .name .frame)] (printed .macroOutput ss)]
  | framed {buffer paths own ss} : Unnested own →
    Tame builtin buffer own ss → Tame builtin buffer paths ([.pushFrame] ++ ss ++ [.popFrame])

namespace Tame

variable {builtin : String → Prop} {buffer : Ident} {paths : List (List String)} {s : Stmt}
  {ss : List Stmt}

theorem cons (h : Tame builtin buffer paths [s]) (hss : Tame builtin buffer paths ss) :
    Tame builtin buffer paths (s :: ss) :=
  h.append hss

end Tame

end Script

/-! ## Generated code -/

namespace Compile

open Script

variable {builtin : String → Prop} {scope : Scope Ident} {buffer : Ident}
  {paths : List (List String)}

theorem tame_reference (x : String) : (reference scope x).Tame builtin := by
  unfold reference
  split
  · exact .name _
  · refine .method rfl (.name _) fun e he => ?_
    simp only [mem_cons, not_mem_nil, or_false] at he
    rcases he with rfl | rfl | rfl
    · exact .name _
    · exact .name _
    · exact .const _

theorem tame_pair {a b : Expr} (ha : a.Tame builtin) (hb : b.Tame builtin) :
    ∀ e ∈ [a, b], e.Tame builtin :=
  forall_mem_cons.2 ⟨ha, forall_mem_singleton.2 hb⟩

mutual

/-- The code of a tame expression is tame. -/
theorem Emits.tame {n p p' e} : Emits scope n p e p' → n.Tame builtin → e.Tame builtin
  | .literal, _ => .const _
  | .text, _ => .const _
  | .symbol, _ => tame_reference _
  | .group h, hn => h.tame (hn.child mem_cons_self)
  | .tuple _ h, hn => .tuple (h.tame fun _ hm => hn.child hm)
  | .array h, hn => .list (h.tame fun _ hm => hn.child hm)
  | .dict h, hn => by
    have hentries := h.tame fun _ hm => hn.child hm
    exact .dict (fun p hp => (hentries p hp).1) fun p hp => (hentries p hp).2
  | .boolean _ hl hr, hn =>
    .boolean (hl.tame (hn.child mem_cons_self))
      (hr.tame (hn.child (mem_cons_of_mem _ mem_cons_self)))
  | .binary _ hl hr, hn =>
    .binary (hl.tame (hn.child mem_cons_self))
      (hr.tame (hn.child (mem_cons_of_mem _ mem_cons_self)))
  | .floorDiv hl hr, hn => by
    refine .method rfl (.name _) (forall_mem_singleton.2 (.binary ?_ ?_))
    · exact hl.tame (hn.child mem_cons_self)
    · exact hr.tame (hn.child (mem_cons_of_mem _ mem_cons_self))
  | .power hl hr, hn =>
    .method rfl (.name _) (tame_pair (hl.tame (hn.child mem_cons_self))
      (hr.tame (hn.child (mem_cons_of_mem _ mem_cons_self))))
  | .unary _ h, hn => .unary (h.tame (hn.child mem_cons_self))
  | .compare h hrest, hn =>
    .compare (h.tame (hn.child mem_cons_self))
      (hrest.tame fun _ hm => hn.child (mem_cons_of_mem _ hm))
  | .lookup _ _ ht hk, hn =>
    .method rfl (.name _) (tame_pair (ht.tame (hn.child mem_cons_self))
      (hk.tame (hn.child (mem_cons_of_mem _ mem_cons_self))))
  | .call .., hn => hn.self.1.elim
  | .filter h, hn => .filter hn.self.1 (h.tame fun _ hm => hn.child (mem_cons_of_mem _ hm))

theorem EmitsAll.tame {ns p p' es} :
    EmitsAll scope ns p es p' → (∀ n ∈ ns, n.Tame builtin) → ∀ e ∈ es, e.Tame builtin
  | .nil, _ => forall_mem_nil _
  | .cons h hrest, hns => by
    obtain ⟨hn, hns⟩ := forall_mem_cons.1 hns
    exact forall_mem_cons.2 ⟨h.tame hn, hrest.tame hns⟩

theorem EmitsEntries.tame {ns p p' es} :
    EmitsEntries scope ns p es p' → (∀ n ∈ ns, n.Tame builtin) →
    ∀ e ∈ es, e.1.Tame builtin ∧ e.2.Tame builtin
  | .nil, _ => forall_mem_nil _
  | .cons _ _ h hrest, hns => by
    obtain ⟨hn, hns⟩ := forall_mem_cons.1 hns
    have hvalue := h.tame (hn.child (mem_cons_of_mem _ mem_cons_self))
    exact forall_mem_cons.2 ⟨⟨.const _, hvalue⟩, hrest.tame hns⟩

theorem EmitsOperands.tame {ns p p' es} :
    EmitsOperands scope ns p es p' → (∀ n ∈ ns, n.Tame builtin) → ∀ e ∈ es, e.2.Tame builtin
  | .nil, _ => forall_mem_nil _
  | .cons _ h hrest, hns => by
    obtain ⟨hn, hns⟩ := forall_mem_cons.1 hns
    exact forall_mem_cons.2 ⟨h.tame (hn.child mem_cons_self), hrest.tame hns⟩

theorem EmitsArguments.tame {ns p p' positional keywords} :
    EmitsArguments scope ns p positional keywords p' → (∀ n ∈ ns, n.Tame builtin) →
    ∀ e ∈ positional, e.Tame builtin
  | .nil, _ => forall_mem_nil _
  | .keyword _ _ hrest, hns => hrest.tame (forall_mem_cons.1 hns).2
  | .positional _ h hrest, hns => by
    obtain ⟨hn, hns⟩ := forall_mem_cons.1 hns
    exact forall_mem_cons.2 ⟨h.tame hn, hrest.tame hns⟩

end

/-- What tame code is made of. -/
def tameMakings (builtin : String → Prop) : Makings where
  var id := id.isPlain = true
  expr := (·.Tame builtin)
  frame names := Unnested (names.map pathParts)

variable {e : Expr} {bound : List String} {ss : List Stmt}

theorem tame_compound (h : e.Compound (tameMakings builtin)) : e.Tame builtin := by
  induction h with
  | emitted he => exact he
  | const c => exact .const c
  | tree n => exact .tree n
  | name _ => exact .name _
  | orphan => exact .compare (.name _) (forall_mem_singleton.2 (.const _))
  | subscript _ _ ih ih' => exact .subscript ih ih'
  | either _ _ ih ih' => exact .boolean ih ih'
  | binary _ _ ih ih' => exact .binary ih ih'
  | compare _ _ ih ih' => exact .compare ih (forall_mem_singleton.2 ih')
  | list _ ih => exact .list ih
  | tuple _ ih => exact .tuple ih
  | empty => exact .dict (forall_mem_nil _) (forall_mem_nil _)
  | core hid _ ih => exact .core hid (forall_mem_singleton.2 ih)
  | helper hfield _ ih => exact .method hfield (.name _) ih
  | template _ ih => exact .method rfl (.name _) (forall_mem_singleton.2 ih)
  | module _ ih => exact .method rfl ih (forall_mem_nil _)

theorem tame_shown (h : e.Shown (tameMakings builtin)) : e.Tame builtin := by
  cases h with
  | raw s => exact .const _
  | value he => exact .method rfl (.name _) (forall_mem_singleton.2 he)
  | block _ => exact .block _
  | inclusion _ =>
    exact .method rfl (.name _) (tame_pair (.method rfl (.name _) (forall_mem_nil _)) (.name _))

theorem tame_step {s : Stmt} (h : s.Step (tameMakings builtin) buffer) :
    Tame builtin buffer paths [s] := by
  cases h with
  | pass => exact .pass
  | expr he => exact .expr (tame_compound he)
  | publish name _ => exact .expr (.method rfl (.name _) (tame_pair (.const _) (.name _)))
  | offer name => exact .expr (.method rfl (.name _) (forall_mem_singleton.2 (.const _)))
  | assign hid he => exact .assign hid (tame_compound he)
  | increment hid => exact .increment hid (.const _)
  | emit he => exact .emit (tame_shown he)

theorem tame_of_made (h : Made (tameMakings builtin) buffer bound ss) :
    Tame builtin buffer (bound.map pathParts) ss := by
  induction h with
  | nil => exact .nil
  | append _ _ ih ih' => exact ih.append ih'
  | step hs => exact tame_step hs
  | frameSet hname he => exact .frameSet (mem_map_of_mem hname) (tame_compound he)
  | branch he _ _ ih ih' => exact .branch (tame_compound he) ih ih'
  | loop ht he _ ih => exact .loop ht (tame_compound he) ih
  | define hname hparams _ ih =>
    have hempty : Unnested [] := by simp [Unnested]
    exact .framed hempty (.define hname (forall_mem_map.2 hparams) ih)
  | framed hown _ ih => exact .framed hown ih
  | inheritance _ he hkey =>
    have hblocks : Expr.Tame builtin (.attr (.name .parentTemplate) .blocks) :=
      .attr (.name _)
    refine .cons (.assign rfl (.method rfl (.name _) (tame_pair he (.const _)))) ?_
    refine .loop (forall_mem_singleton.2 hkey) hblocks (.expr ?_)
    exact .method rfl (.name _) (tame_pair (.name _) (.subscript hblocks (.name _)))

theorem fits_tame {p ns} (hns : ∀ n ∈ ns, n.Tame builtin) : Fits (tameMakings builtin) p ns where
  known _ := trivial
  emits hn he _ _ := he.tame (hns _ hn)
  names _ _ _ := ⟨rfl, rfl⟩
  block _ _ := trivial
  loop hn hnames := (hns _ hn).self.2 _ hnames
  inherits _ _ _ := trivial

theorem Builds.tame {site scope' n p p'} (h : Builds site scope n p ss scope' p')
    (hn : n.Tame builtin) : Tame builtin site.buffer [] ss := by
  refine tame_of_made ((h.made (fits_tame ?_) (fun _ _ _ => trivial) fun _ _ _ => rfl).1 [])
  exact forall_mem_cons.2 ⟨hn, fun _ hd => hn.descendant hd⟩

theorem BuildsAll.tame {site scope' ns p p'} (h : BuildsAll site scope ns p ss scope' p')
    (hns : ∀ n ∈ Node.forest ns, n.Tame builtin) : Tame builtin site.buffer [] ss :=
  tame_of_made ((h.made (fits_tame hns) (fun _ _ _ => trivial) fun _ _ _ => rfl).1 [])

theorem tame_delegation (child : Bool) : Tame builtin buffer paths (delegation child) := by
  unfold delegation
  split
  · refine .branch (.compare (.name _) ?_) (.ret .parent) .nil
    exact forall_mem_singleton.2 (.const _)
  · exact .nil

end Compile

/-! ## Generated functions -/

/-- A function that prints to a buffer of its own by tame code, and has a variable of its own for
the frame. -/
structure Script.Function.Tame (builtin : String → Prop) (f : Function) : Prop where
  name : f.name.isCore = false
  params : ∀ id ∈ f.params, id = .frame ∨ id.isPlain = true
  frame : .frame ∈ f.params
  body : ∃ ss, f.body = Script.printed .output ss ∧ Script.Tame builtin .output [] ss

namespace Compile

open Script

variable {builtin : String → Prop}

theorem entryParams_plain : ∀ id ∈ entryParams, id = .frame ∨ id.isPlain = true := by
  decide

theorem frame_mem_entryParams : .frame ∈ entryParams := by
  decide

theorem tame_rootFunction {items p p' f} (h : Gives (rootFunction items) p f p')
    (hitems : ∀ n ∈ Node.forest items, n.Tame builtin) : f.Tame builtin := by
  obtain ⟨ss, scope, hss, rfl⟩ := gives_rootFunction h
  have hbody : Tame builtin .output []
      (.assign .parentTemplate (.const .null) :: (ss ++ delegation p'.child)) :=
    .cons (.assign rfl (.const _)) ((hss.tame hitems).append (tame_delegation _))
  exact ⟨rfl, entryParams_plain, frame_mem_entryParams, _, rfl, hbody⟩

theorem tame_blockFunction {name body p p' f} (h : Gives (blockFunction name body) p f p')
    (hbody : body.Tame builtin) : f.Tame builtin := by
  obtain ⟨ss, scope, hss, rfl⟩ := gives_blockFunction h
  have hsuper : (Expr.method (.name .context) .getSuper
      [.name .env, .ofContent name, .name (.blockName name.text),
        .name .runtime]).Tame builtin := by
    refine .method rfl (.name _) ?_
    simp only [forall_mem_cons, not_mem_nil, false_implies, implies_true, and_true]
    exact ⟨.name _, .ofContent name, .name _, .name _⟩
  exact ⟨rfl, entryParams_plain, frame_mem_entryParams, _, rfl,
    .cons (.assign rfl hsuper) (hss.tame hbody)⟩

end Compile

theorem tame_of_compile {builtin tree name? file? m c}
    (h : ({} : Compiler).compile tree false name? file? = (.ok m, c)) (htree : tree.Tame builtin) :
    ∀ f ∈ m.functions, f.Tame builtin := by
  have hgives := gives_of_compileModule (Compiler.compileModule_of_compile h)
  obtain ⟨pos, items, root, table, blocks, q, rfl, hroot, htable, hblocks, rfl, -⟩ :=
    gives_templateModule hgives
  refine forall_mem_cons.2 ⟨tame_rootFunction hroot fun _ => htree.descendant, ?_⟩
  intro f hf
  obtain ⟨entry, hentry, _, _, hf⟩ := (buildsBlocks_of_gives hblocks).names.2 f hf
  obtain ⟨-, at_, name, hblock⟩ := (gives_blockTable htable).2 entry hentry
  refine tame_blockFunction hf ((htree.descendant hblock).child ?_)
  exact mem_cons_of_mem _ mem_cons_self

end Stencil
