import Stencil.Proofs.Shielding

/-!
# Expressions that leave buffers alone

Running code that reads and assigns no variable for a buffer keeps buffers apart, if calls do
(`shields_eval`). The expressions whose value generated code prints give texts (`shields_textual`).
-/


namespace Stencil

open Eval List

namespace Script

open Eval

variable {A : Ref → Prop} {P : Lists} {call : Call} {r : Ref}

/-! ## Calls -/

variable {c : Cell} {args : List Cell} {w u : World} {id : Ident}

theorem shields_fieldOf (hc : c.Within P) (field : Attr) :
    Shields A P Cell.Within (fieldOf c field) := by
  unfold fieldOf
  split
  · exact .pure trivial
  · exact .get_bind fun w hw => .pure (hw.heap.holds.root _)
  · exact .ite (.pure hc) (.fail _)

theorem within_of_entryArguments? (hargs : ∀ c ∈ args, c.Within P) {env context frame}
    (h : entryArguments? args = some (env, context, frame)) : env.Within P := by
  unfold entryArguments? at h
  split at h
  · cases h
    exact hargs _ mem_cons_self
  · cases h

theorem entries_displayStart (count : Nat) : (displayStart count).entries = [] := by
  unfold displayStart Dict.forEntries
  split
  · split <;> rfl
  · rfl

/-- A display of values that refer to public lists only. -/
theorem pairsWithin_display (w : Heap) {entries} (h : PairsWithin P entries) :
    PairsWithin P (display w entries).entries := by
  have hfold (l : List (Value × Value)) : ∀ d : Dict, PairsWithin P d.entries → PairsWithin P l →
      PairsWithin P (l.foldl (fun d e => w.insertEntry e.1 e.2 d) d).entries := by
    induction l with
    | nil => exact fun _ hd _ => hd
    | cons e rest ih =>
      intro d hd hl
      obtain ⟨he, hrest⟩ := forall_mem_cons.1 hl
      exact ih _ (hd.insertEntry w he.1 he.2) hrest
  refine hfold entries _ ?_ h
  rw [entries_displayStart]
  exact forall_mem_nil _

theorem shields_callCell (hc : call.Shields) {callee} (hcallee : callee.Within P)
    (hargs : ∀ c ∈ args, c.Within P) : Shields A P Cell.Within (callCell call callee args) := by
  unfold callCell
  split
  · split
    next henter =>
      have henv := within_of_entryArguments? hargs henter
      exact ((hc.enter _ _ hcallee henv).within.weaken fun _ _ hv => hv.within).toCell
    next =>
      refine (Shields.lift (guards_valuesIn hargs)).bind fun P₁ vs h₁ hvs => ?_
      have hf := Cell.Within.mono h₁ hcallee
      exact ((hc.value hf hvs).within.weaken fun _ _ hv => hv.1).toCell
  next self field =>
    have hself : self.Within P := hcallee
    exact (hc.method field hself hargs).within.weaken fun _ _ h => h.1
  · exact (Shields.lift (guards_valuesIn hargs)).bind fun _ vs _ hvs =>
      (Shields.lift (guards_callCore _ hvs)).toCell
  · exact .fail _

/-! ## Expressions -/

mutual

/-- The value of an expression that leaves buffers alone refers to public lists only. -/
theorem shields_eval (hc : call.Shields) (hr : A r) : ∀ (e : Expr) {P : Lists}, e.Obeys apart →
    Shields A P Cell.Within (eval call r e)
  | .const c, _, _ => .pure (Value.within_ofConstant c)
  | .tree _, _, _ => .fail _
  | .name _, _, ho => shields_read r ho
  | .attr object field, _, ho =>
    (shields_eval hc hr object ho.2).bind fun _ _ _ hc => shields_fieldOf hc field
  | .subscript object index, _, ho => by
    have hindex {P : Lists} := shields_eval hc hr index (P := P) ho.2
    refine (shields_eval hc hr object ho.1).value fun _ v _ hv => ?_
    refine hindex.value fun _ i h hi => ?_
    exact Shields.toCell (.lift (guards_subscript (hv.mono h) hi))
  | .call callee args, _, ho => by
    have ho := ho.resolve_left id
    have hargs {P : Lists} := shields_evalAll hc hr args (P := P) ho.2
    refine (shields_eval hc hr callee ho.1).bind fun _ c _ hcell => ?_
    exact hargs.bind fun _ cs h hcs => shields_callCell hc (hcell.mono h) hcs
  | .list items, _, ho => by
    refine (shields_evalAll hc hr items ho).bind fun _ _ _ hcs => ?_
    refine (Shields.lift (guards_valuesIn hcs)).bind fun _ _ _ hvs => ?_
    exact Shields.toCell (.lift (guards_newList hvs))
  | .tuple items, _, ho => by
    refine (shields_evalAll hc hr items ho).bind fun _ _ _ hcs => ?_
    refine (Shields.lift (guards_valuesIn hcs)).bind fun _ _ _ hvs => ?_
    exact Shields.toCell (.lift (guards_newTuple hvs))
  | .dict entries, _, ho => by
    refine (shields_evalEntries hc hr entries ho).bind fun _ _ _ hes => ?_
    refine .get_bind fun w _ => Shields.toCell (.lift (guards_newDict ?_))
    exact pairsWithin_display w.toHeap hes
  | .boolean op left right, _, ho => by
    have hright {P : Lists} := shields_eval hc hr right (P := P) ho.2
    cases op with
    | or =>
      refine (shields_eval hc hr left ho.1).value fun _ v _ hv => ?_
      exact .get_bind fun w _ => .ite (.pure hv) hright
    | and =>
      refine (shields_eval hc hr left ho.1).value fun _ v _ hv => ?_
      exact .get_bind fun w _ => .ite hright (.pure hv)
  | .binary op left right, _, ho => by
    have hright {P : Lists} := shields_eval hc hr right (P := P) ho.2
    refine (shields_eval hc hr left ho.1).value fun _ a _ ha => ?_
    refine hright.value fun _ b h hb => ?_
    refine (Shields.lift (guards_binary op (ha.mono h) hb)).bind fun _ v _ hv => .pure ?_
    split
    · exact Value.within_constantResult a b hv
    · exact hv
  | .unary op operand, _, ho => by
    refine (shields_eval hc hr operand ho).value fun _ a _ ha => ?_
    refine (Shields.lift (guards_unary op ha)).bind fun P₂ v _ hv => .pure ?_
    split
    · exact Value.within_constantResult a a hv
    · exact hv
  | .compare first rest, _, ho => by
    have hrest {P : Lists} := shields_evalChain hc hr rest (P := P) ho.2
    refine (shields_eval hc hr first ho.1).value fun _ a _ ha => ?_
    exact (hrest a).toCell
  | .conditional test body otherwise, _, ho => by
    have hbody {P : Lists} := shields_eval hc hr body (P := P) ho.2.1
    have hotherwise {P : Lists} := shields_eval hc hr otherwise (P := P) ho.2.2
    refine (shields_eval hc hr test ho.1).value fun _ v _ _ => ?_
    exact .get_bind fun w _ => .ite hbody hotherwise
  | .bind id value, _, ho => by
    refine (shields_eval hc hr value ho.2).bind fun _ c _ hc => ?_
    exact (shields_write hr ho.1 hc).bind fun _ _ h _ => .pure (hc.mono h)

theorem shields_evalAll (hc : call.Shields) (hr : A r) : ∀ (es : List Expr) {P : Lists},
    ObeyIn apart es → Shields A P (fun P' cs => ∀ c ∈ cs, c.Within P') (evalAll call r es)
  | [], _, _ => .pure (forall_mem_nil _)
  | e :: rest, _, ho => by
    have hrest {P : Lists} := shields_evalAll hc hr rest (P := P) ho.2
    refine (shields_eval hc hr e ho.1).bind fun _ c _ hc => hrest.bind fun _ cs h hcs => ?_
    exact .pure (forall_mem_cons.2 ⟨hc.mono h, hcs⟩)

theorem shields_evalEntries (hc : call.Shields) (hr : A r) :
    ∀ (es : List (Expr × Expr)) {P : Lists}, ObeyInEntries apart es →
      Shields A P PairsWithin (evalEntries call r es)
  | [], _, _ => .pure (forall_mem_nil _)
  | (key, e) :: rest, _, ho => by
    have he {P : Lists} := shields_eval hc hr e (P := P) ho.2.1
    have hrest {P : Lists} := shields_evalEntries hc hr rest (P := P) ho.2.2
    refine (shields_eval hc hr key ho.1).value fun _ k _ hk => he.value fun _ v h hv => ?_
    refine hrest.bind fun _ entries h' hentries => .pure (forall_mem_cons.2 ⟨⟨?_, ?_⟩, hentries⟩)
    · exact hk.mono fun l hl => h' l (h l hl)
    · exact hv.mono h'

theorem shields_evalChain (hc : call.Shields) (hr : A r) :
    ∀ (es : List (CompareOp × Expr)) {P : Lists}, ObeyInOperands apart es → ∀ left,
      Shields A P Value.Within (evalChain call r left es)
  | [], _, _, _ => .pure trivial
  | (op, e) :: rest, _, ho, left => by
    have hrest {P : Lists} := shields_evalChain hc hr rest (P := P) ho.2
    refine (shields_eval hc hr e ho.1).value fun _ right _ _ => ?_
    refine (Shields.lift (guards_compareBy op left right)).bind fun _ b _ _ => ?_
    exact .ite (.ite (.pure trivial) (hrest right)) (.pure trivial)

end

/-! ## Texts -/

variable (hc : call.Shields)

include hc

omit hc in
theorem shields_methodOf (c : Cell) {field} (hblocks : field ≠ .blocks)
    (hroot : field ≠ .rootRenderFunc) :
    Shields A P (fun _ m => m = .method c field ∧ hasMethod c field = true) (fieldOf c field) := by
  unfold fieldOf
  split
  · exact absurd rfl hblocks
  · exact absurd rfl hroot
  · split
    next h => exact .pure ⟨rfl, h⟩
    next => exact .fail _

omit hc in
theorem eq_runtime_of_hasMethod (h : hasMethod c .toStr = true) : c = .runtime := by
  cases c with
  | runtime => rfl
  | value v => cases v <;> cases h
  | _ => cases h

omit hc in
theorem exists_context_of_hasMethod (h : hasMethod c .getBlock = true) : ∃ q, c = .context q := by
  cases c with
  | context q => exact ⟨q, rfl⟩
  | value v => cases v <;> cases h
  | _ => cases h

omit hc in
theorem exists_template_of_hasMethod (h : hasMethod c .render = true) :
    ∃ t, c = .value (.template t) := by
  cases c with
  | value v =>
    cases v with
    | template t => exact ⟨t, rfl⟩
    | _ => cases h
  | _ => cases h

omit hc in
theorem owner?_of_extends (h : Extends w.activations u.activations) {a} :
    ∀ {fuel : Nat} {r : Ref}, owner? w id fuel r = some a → owner? u id fuel r = some a := by
  intro fuel
  induction fuel with
  | zero => exact fun h => nomatch h
  | succ fuel ih =>
    intro r howner
    rw [owner?] at howner ⊢
    split at howner
    · cases howner
    next b hb =>
      rw [h.2 r (Store.get?_eq_some_lt hb), hb]
      dsimp only
      split at howner
      next hid => rw [if_pos hid]; exact howner
      next hid =>
        rw [if_neg hid]
        split at howner
        next => exact ih howner
        next => cases howner

omit hc in
/-- What was read is read again when only new activations have come. -/
theorem outcome_read_again {v} (h : Extends w.activations u.activations)
    (hid : coreFunction? id = none) (hread : (read r id).outcome w = (.ok c, v)) :
    (read r id).outcome u = (.ok c, u) := by
  unfold read at hread ⊢
  rw [outcome_get_bind] at hread ⊢
  split at hread
  next a ha =>
    rw [owner?_of_extends h ha]
    dsimp only
    split at hread
    next => cases hread; rfl
    next => cases hread
  next =>
    rw [hid] at hread
    cases hread

omit hc in
theorem shields_ofContent (content : Node.Content) :
    Shields A P (fun _ c => ∃ v, c = .value v) (eval call r (.ofContent content)) := by
  cases content with
  | constant c => exact .pure ⟨_, rfl⟩
  | _ => exact .fail _

theorem shields_shown (hr : A r) {e} (he : e.Obeys apart) :
    Shields A P (fun _ => Cell.IsText) (eval call r (.helper .toStr [e])) := by
  have hruntime {P : Lists} : Cell.runtime.Within P := trivial
  have hmethod : Shields A P (fun _ m => m = .method .runtime .toStr)
      (eval call r (.attr (.name .runtime) .toStr)) := by
    refine (shields_read r rfl).bind fun _ c _ _ => ?_
    refine (shields_methodOf c (by decide) (by decide)).weaken fun _ _ h => ?_
    rw [h.1, eq_runtime_of_hasMethod h.2]
  refine hmethod.bind fun P₁ m _ hm => ?_
  subst hm
  refine (shields_evalAll hc hr [e] ⟨he, trivial⟩).bind fun _ cs _ hcs => ?_
  exact (hc.method .toStr hruntime hcs).within.weaken fun _ _ h => h.2 trivial

theorem shields_included (hr : A r) (hid : id.isBuffer = false) {args} (hargs : ObeyIn apart args) :
    Shields A P (fun _ => Cell.IsText) (eval call r (.method (.name id) .render args)) := by
  have hmethod : Shields A P (fun _ m => ∃ t, m = .method (.value (.template t)) .render)
      (eval call r (.attr (.name id) .render)) := by
    refine (shields_read r hid).bind fun _ c _ _ => ?_
    refine (shields_methodOf c (by decide) (by decide)).weaken fun _ _ h => ?_
    obtain ⟨t, rfl⟩ := exists_template_of_hasMethod h.2
    exact ⟨t, h.1⟩
  refine hmethod.bind fun P₁ m _ hm => ?_
  obtain ⟨t, rfl⟩ := hm
  have htemplate {P : Lists} : (Cell.value (.template t)).Within P := trivial
  refine (shields_evalAll hc hr args hargs).bind fun _ cs _ hcs => ?_
  exact (hc.method .render htemplate hcs).within.weaken fun _ _ h => h.2 trivial

theorem shields_callEntry {f} (hf : f.Within P) (hentry : f.IsEntry)
    (hargs : ∀ c ∈ args, c.Within P) :
    Shields A P (fun _ => Cell.IsText) (callCell call (.value f) args) := by
  unfold callCell
  dsimp only
  split
  next henter =>
    exact (hc.enter _ _ hf (within_of_entryArguments? hargs henter)).within.toTextCell
  next =>
    refine (Shields.lift (guards_valuesIn hargs)).bind fun P₁ vs h₁ hvs => ?_
    exact ((hc.value (hf.mono h₁) hvs).within.weaken fun _ _ hv => hv.2 hentry).toTextCell

omit hc in
theorem hasMethod_rootRenderFunc (c : Cell) : hasMethod c .rootRenderFunc = false := by
  cases c with
  | value v => cases v <;> rfl
  | _ => rfl

omit hc in
theorem apart_entryArgs : ObeyIn apart Expr.entryArgs :=
  ⟨rfl, rfl, rfl, rfl, trivial⟩

theorem shields_parent (hr : A r) : Shields A P (fun _ => Cell.IsText)
    (eval call r (.method (.name .parentTemplate) .rootRenderFunc Expr.entryArgs)) := by
  have hroot : Shields A P (fun P' c => ∃ f, c = .value f ∧ f.Within P' ∧ f.IsEntry)
      (eval call r (.attr (.name .parentTemplate) .rootRenderFunc)) := by
    refine (shields_read r rfl).bind fun _ c _ _ => ?_
    unfold fieldOf
    split
    · contradiction
    next => exact .get_bind fun w hw => .pure ⟨_, rfl, hw.heap.holds.root _, hw.isEntry_root _⟩
    next => rw [hasMethod_rootRenderFunc]; exact .fail _
  refine hroot.bind fun P₁ c _ h => ?_
  obtain ⟨f, rfl, hf, hentry⟩ := h
  refine (shields_evalAll hc hr _ apart_entryArgs).bind fun _ cs h hcs => ?_
  exact shields_callEntry hc (hf.mono h) hentry hcs

omit hc in
/-- A block is asked for where `context` holds a context. -/
theorem context_of_getBlock {args b}
    (h : (eval call r (.method (.name .context) .getBlock args)).outcome w = (.ok b, u)) :
    ∃ q v, (read r .context).outcome w = (.ok (.context q), v) := by
  rw [Expr.method, eval] at h
  obtain ⟨m, w₁, hm, -⟩ := outcome_bind_eq_ok h
  rw [eval] at hm
  obtain ⟨c, w₂, hread, hfield⟩ := outcome_bind_eq_ok hm
  cases hc : hasMethod c .getBlock with
  | true =>
    obtain ⟨q, rfl⟩ := exists_context_of_hasMethod hc
    exact ⟨q, w₂, hread⟩
  | false =>
    unfold fieldOf at hfield
    split at hfield
    · contradiction
    · contradiction
    · rw [hc] at hfield
      cases hfield

omit hc in
/-- The arguments of an entry point are what the identifiers hold. -/
theorem mem_of_outcome_entryArgs {v cs}
    (h : (evalAll call r Expr.entryArgs).outcome w = (.ok cs, u))
    (hread : (read r .context).outcome w = (.ok c, v)) : c ∈ cs := by
  obtain ⟨e, w₁, henv, h⟩ := outcome_bind_eq_ok h
  obtain ⟨rest, w₂, hrest, h⟩ := outcome_bind_eq_ok h
  cases h
  obtain ⟨c', w₃, hcontext, hrest⟩ := outcome_bind_eq_ok hrest
  obtain ⟨more, w₄, -, hrest⟩ := outcome_bind_eq_ok hrest
  cases hrest
  have hw : w₁ = w := by
    rw [← snd_outcome_read r .env w]
    exact (congrArg Prod.snd henv).symm
  subst hw
  cases hread.symm.trans hcontext
  exact mem_cons_of_mem _ mem_cons_self

omit hc in
theorem guards_valuesIn_context {q} : ∀ {cs : List Cell} {P : Lists}, .context q ∈ cs →
    (∀ c ∈ cs, c.Within P) → Operation.Guards False P (fun _ _ => False) (valuesIn cs) := by
  intro cs
  induction cs with
  | nil => exact fun h => nomatch h
  | cons c rest ih =>
    intro P hmem hcs
    obtain ⟨hc, hrest⟩ := forall_mem_cons.1 hcs
    unfold valuesIn
    rw [mapM_cons]
    rcases mem_cons.1 hmem with rfl | hmem
    · exact .fail_bind _ _
    · refine (guards_valueIn hc).bind fun P₁ v h₁ _ => ?_
      exact (ih hmem fun c hc => (hrest c hc).mono h₁).bind fun _ _ _ h => h.elim

theorem shields_callBlock {f} (hf : f.Within P) {q} (hargs : ∀ c ∈ args, c.Within P)
    (hcontext : .context q ∈ args) :
    Shields A P (fun _ => Cell.IsText) (callCell call (.value f) args) := by
  unfold callCell
  dsimp only
  split
  next henter =>
    exact (hc.enter _ _ hf (within_of_entryArguments? hargs henter)).within.toTextCell
  next => exact (Shields.lift (guards_valuesIn_context hcontext hargs)).bind fun _ _ _ h => h.elim

/-- What a block renders. -/
theorem shields_block (hr : A r) (content : Node.Content) : Shields A P (fun _ => Cell.IsText)
    (eval call r (.call (.method (.name .context) .getBlock [.ofContent content])
      Expr.entryArgs)) := by
  have hfound : Shields nobody P (fun P' b => ∃ v, b = .value v ∧ v.Within P')
      (eval call r (.method (.name .context) .getBlock [.ofContent content])) := by
    have hmethod : Shields nobody P (fun _ m => ∃ q, m = .method (.context q) .getBlock)
        (eval call r (.attr (.name .context) .getBlock)) := by
      refine (shields_read r rfl).bind fun _ c _ _ => ?_
      refine (shields_methodOf c (by decide) (by decide)).weaken fun _ _ h => ?_
      obtain ⟨q, rfl⟩ := exists_context_of_hasMethod h.2
      exact ⟨q, h.1⟩
    refine hmethod.bind fun P₁ m _ hm => ?_
    obtain ⟨q, rfl⟩ := hm
    refine Shields.bind (Q := fun _ cs => ∃ v, cs = [.value v]) ?_ fun _ cs _ hcs => ?_
    · refine (shields_ofContent content).bind fun _ c _ hc => ?_
      obtain ⟨v, rfl⟩ := hc
      exact .pure ⟨v, rfl⟩
    · obtain ⟨v, rfl⟩ := hcs
      exact hc.block q v
  intro w hw
  -- Finding the block changes no activation, so the arguments hold the same context.
  obtain ⟨P₁, hlater, hw₁, hblock⟩ := hfound w hw
  have hfirst : ShieldsAt A nobody P w (fun P' b u => (∃ v, b = .value v ∧ v.Within P') ∧
      ∃ q, (read r .context).outcome u = (.ok (.context q), u))
      (eval call r (.method (.name .context) .getBlock [.ofContent content])) := by
    refine ⟨P₁, hlater.weaken (fun _ _ h => h.elim) fun _ _ h => h, hw₁, fun b hb =>
      ⟨hblock b hb, ?_⟩⟩
    obtain ⟨q, v, hread⟩ := context_of_getBlock (Prod.ext hb rfl)
    exact ⟨q, outcome_read_again hlater.extends_activations rfl hread⟩
  refine hfirst.bind fun P₂ b u _ hu h => ?_
  obtain ⟨⟨v, rfl, hv⟩, q, hread⟩ := h
  obtain ⟨P₃, hlater₃, hu₃, hargs⟩ := shields_evalAll hc hr _ apart_entryArgs u hu
  have hsecond : ShieldsAt A nobody P₂ u (fun P' cs _ => (∀ c ∈ cs, c.Within P') ∧
      v.Within P' ∧ .context q ∈ cs) (evalAll call r Expr.entryArgs) := by
    refine ⟨P₃, hlater₃, hu₃, fun cs hcs => ⟨hargs cs hcs, hv.mono hlater₃.mono, ?_⟩⟩
    exact mem_of_outcome_entryArgs (Prod.ext hcs rfl) hread
  exact hsecond.bind fun P₄ cs u' _ hu' h => shields_callBlock hc h.2.1 h.1 h.2.2 u' hu'

theorem shields_textual (hr : A r) {e} (he : e.Textual) :
    Shields A P (fun _ => Cell.IsText) (eval call r e) := by
  cases he with
  | raw s => exact .pure trivial
  | shown he => exact shields_shown hc hr he
  | block content => exact shields_block hc hr content
  | inclusion hid => exact shields_included hc hr hid ⟨.inr ⟨⟨trivial, rfl⟩, trivial⟩, rfl, trivial⟩
  | parent => exact shields_parent hc hr

end Script

end Stencil
