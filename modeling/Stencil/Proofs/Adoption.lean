import Stencil.Proofs.Binding
import Stencil.Proofs.Instruction

/-!
# How the blocks of a parent are added

Once a parent template is known, generated code goes through the blocks of the parent and adds each
of them behind the definitions that the context has already. `outcome_adoption` says what this loop
does to the state as a whole: every chain of the context grows by what the parent defines under its
name, and apart from the loop variable nothing else changes (`World.adopt`).
-/

namespace Stencil

open Eval Heap List Script Table

/-! ## Chains -/

namespace Context

theorem chain_addBlock_self (c : Context) (name : String) (v : Value) :
    (c.addBlock name v).chain name = c.chain name ++ [v] := by
  simp [chain, addBlock]

theorem chain_addBlock_of_ne (c : Context) {name b} (h : b ≠ name) (v : Value) :
    (c.addBlock name v).chain b = c.chain b := by
  simp [chain, addBlock, c.blocks.find?_insert_of_ne h]

/-- Blocks under different names are added to different chains. -/
theorem chain_foldl_addBlock {entries} (h : (entries.map (·.1)).Nodup) (c : Context) (b : String) :
    (entries.foldl (fun c e => c.addBlock e.1 e.2) c).chain b =
      c.chain b ++ (findIn b entries).toList := by
  induction entries generalizing c with
  | nil => simp [findIn]
  | cons e rest ih =>
    obtain ⟨name, v⟩ := e
    rw [map_cons, nodup_cons] at h
    rw [foldl_cons, ih h.2]
    by_cases hname : name = b
    · subst hname
      have hrest : findIn name rest = none := by
        rw [Option.eq_none_iff_forall_not_mem]
        intro v hv
        exact h.1 (mem_map_of_mem (f := (·.1)) ((findIn_eq_some_iff h.2).1 hv))
      simp [chain_addBlock_self, findIn, hrest]
    · simp [chain_addBlock_of_ne c (Ne.symm hname), findIn, hname]

theorem foldl_addBlock_eq (entries : List (String × Value)) (c : Context) :
    entries.foldl (fun c e => c.addBlock e.1 e.2) c =
      { c with blocks := (entries.foldl (fun c e => c.addBlock e.1 e.2) c).blocks } := by
  induction entries generalizing c with
  | nil => rfl
  | cons e rest ih => exact ih _

end Context

namespace Template

theorem nodup_blocks (t : Template) : (t.blocks.entries.map (·.1)).Nodup :=
  nodup_keys_ofList _

theorem find?_blocks_iff {t : Template} {b v} :
    t.blocks.find? b = some v ↔ (b, v) ∈ t.blocks.entries :=
  findIn_eq_some_iff t.nodup_blocks

end Template

theorem Context.chain_ofBlocks (vars : Table String Value) (t : Template) (b : String) :
    (Context.ofBlocks vars t.blocks.entries).chain b = (t.blocks.find? b).toList :=
  (chain_foldl_addBlock t.nodup_blocks { vars } b).trans (nil_append _)

/-! ## The loop over the blocks of the parent -/

/-- The blocks of a template, added to a context by code that runs in the activation `r`. -/
def World.adopt (w : World) (r c : Ref) (key : Ident) (entries : List (String × Value)) :
    World :=
  { w with
    contexts := w.contexts.set c (entries.foldl (fun c e => c.addBlock e.1 e.2) (w.context c))
    activations := entries.foldl
      (fun acts e => acts.modify r (·.assign key (.value (.ofText e.1)))) w.activations }

/-- The loop that adds the blocks of the parent template. -/
def Compile.adoption (key : Ident) : Stmt :=
  .loop (.single key) (.attr (.name .parentTemplate) .blocks)
    [.expr (.method (.name .context) .addBlock
      [.name key, .subscript (.attr (.name .parentTemplate) .blocks) (.name key)])]

theorem Compile.inheritance_eq (parent : Expr) (key : Ident) : inheritance parent key =
      [.assign .parentTemplate (.method (.name .env) .getTemplate [parent, .const (.bool true)]),
        adoption key] := rfl

namespace Store

variable {α : Type}

theorem set_set (s : Store α) (r : Ref) (a b : α) : (s.set r a).set r b = s.set r b := by
  simp [set]

theorem set_self {s : Store α} {r a} (h : s.get? r = some a) : s.set r a = s := by
  rw [← s.modify_eq_set (fun _ => a) h]
  obtain ⟨cells⟩ := s
  simp only [modify, mk.injEq]
  apply Array.ext_getElem?
  intro i
  by_cases hi : r = i
  · subst hi
    simp only [get?] at h
    rw [Array.getElem?_modify, if_pos rfl, h]
    rfl
  · rw [Array.getElem?_modify, if_neg hi]

end Store

theorem World.set_context {w : World} {r : Ref} (hr : r < w.contexts.size) :
    w.contexts.set r (w.context r) = w.contexts := by
  obtain ⟨c, hc⟩ := Store.exists_get?_of_lt hr
  exact Store.set_self (hc.trans (by simp [Heap.context, hc]))

open Script

/-- Code that is about to add blocks: the activation `r` owns the loop variable, knows the template
`t` as the parent and has the context `c` at hand. -/
structure World.Adopting (w : World) (r c t : Ref) (k : Nat) : Prop where
  nested : Nested w.activations
  owned : ∃ a, w.activations.get? r = some a ∧ .temp k ∈ a.owned
  parent : reads? w r .parentTemplate = some (.value (.template t))
  context : reads? w r .context = some (.context c)
  lt : c < w.contexts.size

namespace World.Adopting

variable {w : World} {r c t : Ref} {k : Nat} {call : Call} {limit : Nat}

theorem assign (h : w.Adopting r c t k) (cell : Cell) :
    (w.assign r (.temp k) cell).Adopting
      r c t k where
  nested := Nested.assign h.nested r (.temp k) cell
  owned := by
    obtain ⟨a, ha, hown⟩ := h.owned
    exact ⟨a.assign (.temp k) cell, by rw [w.activations.get?_modify_self, ha]; rfl, hown⟩
  parent := (reads?_assign_of_ne _ h.nested Ident.noConfusion).trans h.parent
  context := (reads?_assign_of_ne _ h.nested Ident.noConfusion).trans h.context
  lt := h.lt

theorem add (h : w.Adopting r c t k) (e : String × Value) :
    (w.adopt r c (.temp k) [e]).Adopting r c t k := by
  have hassign := h.assign (.value (.ofText e.1))
  exact ⟨hassign.nested, hassign.owned, hassign.parent, hassign.context,
    Nat.lt_of_lt_of_eq h.lt (Store.size_set ..).symm⟩

theorem adopt_cons (h : w.Adopting r c t k) (e : String × Value) (rest : List (String × Value)) :
    (w.adopt r c (.temp k) [e]).adopt r c (.temp k) rest = w.adopt r c (.temp k) (e :: rest) := by
  have hcontext : (w.adopt r c (.temp k) [e]).context c = (w.context c).addBlock e.1 e.2 :=
    World.context_set h.lt _
  unfold World.adopt at hcontext ⊢
  rw [hcontext]
  simp only [Store.set_set, foldl_cons, foldl_nil]

theorem adopt_nil (h : w.Adopting r c t k) : w.adopt r c (.temp k) [] = w := by
  unfold World.adopt
  rw [List.foldl_nil, List.foldl_nil, World.set_context h.lt]

theorem outcome_blocks (h : w.Adopting r c t k) :
    (eval call r (.attr (.name .parentTemplate) .blocks)).outcome w =
      (.ok (.value (.blockMap t)), w) := by
  rw [eval, eval, outcome_bind_of_ok (outcome_read_of_reads? h.parent)]
  rfl

/-- A block of the parent is found under its name. -/
theorem outcome_subscript {b v} (hb : (w.template t).blocks.find? b = some v) :
    (liftM (Eval.subscript (.blockMap t) (.ofText b)) : Eval Value).outcome w = (.ok v, w) := by
  have hfind (l : List (String × Value)) (h : Table.findIn b l = some v) :
      (l.find? fun e => e.1 == b).map (·.2) = some v := by
    induction l with
    | nil => cases h
    | cons e rest ih =>
      obtain ⟨name, u⟩ := e
      by_cases hname : name = b
      · simpa [Table.findIn, hname] using h
      · simp only [Table.findIn, hname, if_false] at h
        simpa [hname] using ih h
  have hentry : w.findEntry? (w.template t).blockEntries (.ofText b) = some v := by
    rw [Heap.findEntry?_text, Template.blockEntries, List.find?_map, Option.map_map]
    exact hfind _ hb
  have hitem : w.subscript (.blockMap t) (.ofText b) = .ok v := by
    unfold Value.ofText at hentry
    simp only [Heap.subscript, Heap.mapping?, Heap.mappingItem, Heap.unhashable?, Value.ofText,
      hentry]
  rw [Eval.outcome_lift, Engine.perform_subscript hitem]
  rfl

section

variable (hadd : ∀ name v w, (call.method (.context c) .addBlock
    [.value (.ofText name), .value v]).outcome w =
  (.ok (.value .none), w.setContext c ((w.context c).addBlock name v)))

include hadd

/-- One round of the loop. -/
theorem outcome_round (h : w.Adopting r c t k) {e}
    (he : (w.template t).blocks.find? e.1 = some e.2) :
    (do assignTarget r (.single (.temp k)) (.ofText e.1)
        execAll call limit r [.expr (.method (.name .context) .addBlock
          [.name (.temp k), .subscript (.attr (.name .parentTemplate) .blocks)
            (.name (.temp k))])]).outcome w =
      (.ok none, w.adopt r c (.temp k) [e]) := by
  let u : World :=
    (w.assign r (.temp k) (.value (.ofText e.1)))
  have hu : u.Adopting r c t k := h.assign _
  obtain ⟨a, ha, hown⟩ := h.owned
  have hkey : (eval call r (.name (.temp k))).outcome u = (.ok (.value (.ofText e.1)), u) :=
    outcome_read_of_reads? (reads?_assign_self _ h.nested ha hown)
  have hblock : (eval call r (.subscript (.attr (.name .parentTemplate) .blocks)
      (.name (.temp k)))).outcome u = (.ok (.value e.2), u) := by
    rw [eval, outcome_bind_of_ok hu.outcome_blocks, valueIn_value, pure_bind,
      outcome_bind_of_ok hkey, valueIn_value, pure_bind,
      outcome_bind_of_ok (outcome_subscript (w := u) he)]
    rfl
  have hcall := outcome_eval_method .addBlock (outcome_read_of_reads? hu.context) rfl
    (outcome_evalAll_cons hkey (outcome_evalAll_cons hblock outcome_evalAll_nil))
  show (execAll call limit r _).outcome u = _
  rw [execAll_singleton, exec, outcome_bind, hcall, hadd]
  rfl

/-- The rounds of the loop over some of the blocks. -/
theorem outcome_roundsOver : ∀ (entries : List (String × Value)) {w : World},
    w.Adopting r c t k → (∀ e ∈ entries, (w.template t).blocks.find? e.1 = some e.2) →
    (roundsOver (fun v => do
        assignTarget r (.single (.temp k)) v
        execAll call limit r [.expr (.method (.name .context) .addBlock
          [.name (.temp k), .subscript (.attr (.name .parentTemplate) .blocks)
            (.name (.temp k))])]) (entries.map fun e => .ofText e.1)).outcome w =
      (.ok none, w.adopt r c (.temp k) entries)
  | [], w, h, _ => by
    rw [h.adopt_nil]
    rfl
  | e :: rest, w, h, he => by
    rw [map_cons, roundsOver, outcome_bind_of_ok (h.outcome_round hadd (he e mem_cons_self))]
    rw [← h.adopt_cons e rest]
    exact outcome_roundsOver rest (h.add e) fun e' he' => he e' (mem_cons_of_mem _ he')

variable (call limit) in
/-- The loop adds the blocks of the parent behind those that the context has. -/
theorem outcome_adoption (h : w.Adopting r c t k) :
    (exec call limit r (Compile.adoption (.temp k))).outcome w =
      (.ok none, w.adopt r c (.temp k) (w.template t).blocks.entries) := by
  have hkeys : Iteration.start? w.toHeap (.blockMap t) =
      some (.over (.fixed ((w.template t).blocks.entries.map fun e => .ofText e.1))) := by
    simp [Iteration.start?, Traversal.start?, elements?, Table.keys, Function.comp_def]
  rw [Compile.adoption, exec, outcome_bind_of_ok h.outcome_blocks, valueIn_value, pure_bind,
    runLoop, outcome_get_bind, hkeys]
  exact h.outcome_roundsOver hadd _ fun e he => Template.find?_blocks_iff.2 he

end

end World.Adopting

end Stencil
