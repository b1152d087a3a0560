import Stencil.Proofs.Emission
import Stencil.Proofs.Parts

/-!
# The parts of generated code

What the parts of a generated expression can be is said once, in `Pieces`: constants and operations,
identifiers that the scope or the surrounding function knows, and calls, each of which names its
callee by a temporary of its own. The code of a call holds its arguments twice, so the parts are
looked at as a set; two calls that name the same temporary are then the same call. `Emits.pieces`
proves this of every expression that is generated.
-/

namespace Stencil

open Compile List Script

namespace Script

/-- Neither an identifier nor part of how a call chooses its convention, and neither output nor a
change of a frame. -/
def Expr.isInert : Expr → Bool
  | .name _ | .bind .. | .conditional .. => false
  | .attr _ field => field != .append && field != .set
  | _ => true

end Script

namespace Compile

open Script (Ident Expr)

/-- What the parts of generated expressions can be, when they take the temporaries after `lo` up to
`hi`. -/
structure Pieces (scope : Scope Ident) (lo hi : Nat) (xs : List Expr) : Prop where
  /-- An identifier is a parameter of every entry point, known to the scope, or bound here. -/
  name : ∀ id, .name id ∈ xs →
    id ∈ entryParams ∨ (∃ x, scope.lookup x = some id) ∨ ∃ v, .bind id v ∈ xs
  /-- What is bound is the callee of a call, under a temporary of the range. -/
  bind : ∀ id v, .bind id v ∈ xs →
    (∃ k, id = .temp k ∧ lo < k ∧ k ≤ hi) ∧ ∃ ps ks, dualCall id v ps ks ∈ xs
  /-- A call binds its callee. -/
  call : ∀ id f ps ks, dualCall id f ps ks ∈ xs → .bind id f ∈ xs
  /-- Two calls that bind the same temporary are copies of one call. -/
  same : ∀ id f ps ks f' ps' ks', dualCall id f ps ks ∈ xs → dualCall id f' ps' ks' ∈ xs →
    f = f' ∧ ps = ps' ∧ ks = ks'
  /-- Nothing is output, and no frame is changed. -/
  silent : ∀ object field, .attr object field ∈ xs → field ≠ .append ∧ field ≠ .set

namespace Pieces

variable {scope : Scope Ident} {lo mid hi lo' hi' : Nat} {xs ys : List Expr}

theorem nil : Pieces scope lo hi [] where
  name _ h := nomatch h
  bind _ _ h := nomatch h
  call _ _ _ _ h := nomatch h
  same _ _ _ _ _ _ _ h := nomatch h
  silent _ _ h := nomatch h

theorem mono (h : Pieces scope lo hi xs) (hlo : lo' ≤ lo) (hhi : hi ≤ hi') :
    Pieces scope lo' hi' xs :=
  { h with
    bind := fun id v hv => by
      obtain ⟨⟨k, rfl, hk, hk'⟩, hcall⟩ := h.bind id v hv
      exact ⟨⟨k, rfl, by omega, by omega⟩, hcall⟩ }

/-- Only which parts there are matters, not where and how often. -/
theorem of_mem_iff (h : Pieces scope lo hi xs) (hmem : ∀ x, x ∈ ys ↔ x ∈ xs) :
    Pieces scope lo hi ys where
  name id hid := by
    simpa only [hmem] using h.name id ((hmem _).1 hid)
  bind id v hv := by
    simpa only [hmem] using h.bind id v ((hmem _).1 hv)
  call id f ps ks hcall := (hmem _).2 (h.call id f ps ks ((hmem _).1 hcall))
  same id f ps ks f' ps' ks' hcall hcall' :=
    h.same id f ps ks f' ps' ks' ((hmem _).1 hcall) ((hmem _).1 hcall')
  silent object field ho := h.silent object field ((hmem _).1 ho)

variable {f : Expr} {ps : List Expr} {ks : List (Expr × Expr)}

theorem range (h : Pieces scope lo hi xs) {id} (hcall : dualCall id f ps ks ∈ xs) :
    ∃ k, id = .temp k ∧ lo < k ∧ k ≤ hi :=
  (h.bind id f (h.call id f ps ks hcall)).1

/-- Inert expressions around the parts change nothing. -/
theorem cons_inert (h : Pieces scope lo hi xs) {e} (he : e.isInert = true) :
    Pieces scope lo hi (e :: xs) where
  name id hid := by
    rcases mem_cons.1 hid with rfl | hid
    · cases he
    · rcases h.name id hid with hp | hs | ⟨v, hv⟩
      · exact .inl hp
      · exact .inr (.inl hs)
      · exact .inr (.inr ⟨v, mem_cons_of_mem _ hv⟩)
  bind id v hv := by
    rcases mem_cons.1 hv with rfl | hv
    · cases he
    · obtain ⟨hk, ps, ks, hcall⟩ := h.bind id v hv
      exact ⟨hk, ps, ks, mem_cons_of_mem _ hcall⟩
  call id f ps ks hcall := by
    rcases mem_cons.1 hcall with rfl | hcall
    · cases he
    · exact mem_cons_of_mem _ (h.call id f ps ks hcall)
  same id f ps ks f' ps' ks' hcall hcall' := by
    rcases mem_cons.1 hcall with rfl | hcall
    · cases he
    rcases mem_cons.1 hcall' with rfl | hcall'
    · cases he
    exact h.same id f ps ks f' ps' ks' hcall hcall'
  silent object field ho := by
    rcases mem_cons.1 ho with rfl | ho
    · simpa [Expr.isInert] using he
    · exact h.silent object field ho

/-- An identifier that is known where the code stands can be read there. -/
theorem cons_name (h : Pieces scope lo hi xs) {id}
    (hid : id ∈ entryParams ∨ ∃ x, scope.lookup x = some id) :
    Pieces scope lo hi (.name id :: xs) where
  name id' hid' := by
    rcases mem_cons.1 hid' with heq | hid'
    · cases heq
      exact hid.imp_right .inl
    · rcases h.name id' hid' with hp | hs | ⟨v, hv⟩
      · exact .inl hp
      · exact .inr (.inl hs)
      · exact .inr (.inr ⟨v, mem_cons_of_mem _ hv⟩)
  bind id v hv := by
    obtain ⟨hk, ps, ks, hcall⟩ := h.bind id v ((mem_cons.1 hv).resolve_left Expr.noConfusion)
    exact ⟨hk, ps, ks, mem_cons_of_mem _ hcall⟩
  call id f ps ks hcall :=
    mem_cons_of_mem _ (h.call id f ps ks ((mem_cons.1 hcall).resolve_left Expr.noConfusion))
  same id f ps ks f' ps' ks' hcall hcall' :=
    h.same id f ps ks f' ps' ks' ((mem_cons.1 hcall).resolve_left Expr.noConfusion)
      ((mem_cons.1 hcall').resolve_left Expr.noConfusion)
  silent object field ho :=
    h.silent object field ((mem_cons.1 ho).resolve_left Expr.noConfusion)

/-- Code that takes temporaries one after the other. -/
theorem append (h : Pieces scope lo mid xs) (h' : Pieces scope mid hi ys) (hlo : lo ≤ mid)
    (hhi : mid ≤ hi) : Pieces scope lo hi (xs ++ ys) where
  name id hid := by
    rcases mem_append.1 hid with hid | hid
    · rcases h.name id hid with hp | hs | ⟨v, hv⟩
      · exact .inl hp
      · exact .inr (.inl hs)
      · exact .inr (.inr ⟨v, mem_append_left _ hv⟩)
    · rcases h'.name id hid with hp | hs | ⟨v, hv⟩
      · exact .inl hp
      · exact .inr (.inl hs)
      · exact .inr (.inr ⟨v, mem_append_right _ hv⟩)
  bind id v hv := by
    rcases mem_append.1 hv with hv | hv
    · obtain ⟨⟨k, rfl, hk, hk'⟩, ps, ks, hcall⟩ := h.bind id v hv
      exact ⟨⟨k, rfl, hk, by omega⟩, ps, ks, mem_append_left _ hcall⟩
    · obtain ⟨⟨k, rfl, hk, hk'⟩, ps, ks, hcall⟩ := h'.bind id v hv
      exact ⟨⟨k, rfl, by omega, hk'⟩, ps, ks, mem_append_right _ hcall⟩
  call id f ps ks hcall := by
    rcases mem_append.1 hcall with hcall | hcall
    · exact mem_append_left _ (h.call id f ps ks hcall)
    · exact mem_append_right _ (h'.call id f ps ks hcall)
  same id f ps ks f' ps' ks' hcall hcall' := by
    -- The ranges do not meet, so both calls stand on the same side.
    rcases mem_append.1 hcall with hcall | hcall <;>
      rcases mem_append.1 hcall' with hcall' | hcall'
    · exact h.same id f ps ks f' ps' ks' hcall hcall'
    · obtain ⟨k, rfl, -, hk⟩ := h.range hcall
      obtain ⟨k', hk', hlt, -⟩ := h'.range hcall'
      cases hk'
      omega
    · obtain ⟨k, rfl, hlt, -⟩ := h'.range hcall
      obtain ⟨k', hk', -, hk⟩ := h.range hcall'
      cases hk'
      omega
    · exact h'.same id f ps ks f' ps' ks' hcall hcall'
  silent object field ho := by
    rcases mem_append.1 ho with ho | ho
    · exact h.silent object field ho
    · exact h'.silent object field ho

/-- A call binds its callee to a temporary that no part of it takes. -/
theorem cons_call {k} (h : Pieces scope (k + 1) hi xs) (hhi : k + 1 ≤ hi) :
    Pieces scope k hi (dualCall (.temp (k + 1)) f ps ks :: .bind (.temp (k + 1)) f ::
      .name (.temp (k + 1)) :: xs) where
  name id hid := by
    have hid : id = .temp (k + 1) ∨ .name id ∈ xs := by
      simpa [dualCall] using hid
    rcases hid with rfl | hid
    · exact .inr (.inr ⟨f, by simp⟩)
    · rcases h.name id hid with hp | hs | ⟨v, hv⟩
      · exact .inl hp
      · exact .inr (.inl hs)
      · exact .inr (.inr ⟨v, by simp [hv]⟩)
  bind id v hv := by
    have hv : (id = .temp (k + 1) ∧ v = f) ∨ .bind id v ∈ xs := by
      simpa [dualCall] using hv
    rcases hv with ⟨rfl, rfl⟩ | hv
    · exact ⟨⟨k + 1, rfl, by omega, hhi⟩, ps, ks, by simp⟩
    · obtain ⟨⟨j, rfl, hj, hj'⟩, qs, ls, hcall⟩ := h.bind id v hv
      exact ⟨⟨j, rfl, by omega, hj'⟩, qs, ls, by simp [hcall]⟩
  call id g qs ls hcall := by
    rcases mem_cons.1 hcall with heq | hcall
    · simp only [dualCall, Expr.helper, Expr.method, Expr.conditional.injEq,
        Expr.call.injEq, cons.injEq, Expr.bind.injEq] at heq
      simp [heq]
    · have hcall : dualCall id g qs ls ∈ xs := by
        simpa [dualCall] using hcall
      simp [h.call id g qs ls hcall]
  same id g qs ls g' qs' ls' hcall hcall' := by
    have hin : ∀ {g qs ls}, dualCall id g qs ls ∈
        dualCall (.temp (k + 1)) f ps ks :: .bind (.temp (k + 1)) f :: .name (.temp (k + 1)) :: xs →
        (id = .temp (k + 1) ∧ g = f ∧ qs = ps ∧ ls = ks) ∨ dualCall id g qs ls ∈ xs := by
      intro g qs ls hmem
      rcases mem_cons.1 hmem with heq | hmem
      · simp only [dualCall, Expr.helper, Expr.method, Expr.conditional.injEq,
          Expr.call.injEq, cons.injEq, Expr.bind.injEq, Expr.list.injEq,
          Expr.dict.injEq] at heq
        exact .inl (by simp [heq])
      · exact .inr (by simpa [dualCall] using hmem)
    -- The temporary of the new call lies below those of the calls inside it.
    have hnew : ∀ {g qs ls}, dualCall (.temp (k + 1)) g qs ls ∉ xs := by
      intro g qs ls hmem
      obtain ⟨j, hj, hlt, -⟩ := h.range hmem
      cases hj
      omega
    rcases hin hcall with ⟨rfl, rfl, rfl, rfl⟩ | hcall <;>
      rcases hin hcall' with ⟨hid, hg, hqs, hls⟩ | hcall'
    · exact ⟨hg.symm, hqs.symm, hls.symm⟩
    · exact absurd hcall' hnew
    · subst hid
      exact absurd hcall hnew
    · exact h.same id g qs ls g' qs' ls' hcall hcall'
  silent object field ho := by
    have ho : .attr object field ∈ xs := by simpa [dualCall] using ho
    exact h.silent object field ho

/-- A call takes a temporary, then its arguments are generated, and its callee last. -/
theorem dualCall {k q}
    (hargs : Pieces scope (k + 1) q (Script.partsOf ps ++ Script.partsOfEntries ks))
    (hf : Pieces scope q hi f.parts) (hlo : k + 1 ≤ q) (hhi : q ≤ hi) :
    Pieces scope k hi (dualCall (.temp (k + 1)) f ps ks).parts := by
  have hinner : Pieces scope (k + 1) hi
      ([.helper .isMacro [.bind (.temp (k + 1)) f], .attr (.name .runtime) .isMacro,
        .call (.name (.temp (k + 1))) [.list ps, .dict ks], .list ps, .dict ks,
        .call (.name (.temp (k + 1))) ps, .name .runtime] ++
        (Script.partsOf ps ++ Script.partsOfEntries ks ++ f.parts)) := by
    refine cons_inert ?_ rfl
    refine cons_inert ?_ rfl
    refine cons_inert ?_ rfl
    refine cons_inert ?_ rfl
    refine cons_inert ?_ rfl
    refine cons_inert ?_ rfl
    exact (hargs.append hf hlo hhi).cons_name (.inl (by decide))
  have hcall : Pieces scope k hi (Compile.dualCall (.temp (k + 1)) f ps ks :: _) :=
    hinner.cons_call (by omega)
  refine hcall.of_mem_iff fun x => ?_
  -- The positional arguments stand in both calls.
  simp only [Compile.dualCall, Expr.helper, Expr.method, Expr.parts, Script.partsOf,
    List.mem_cons, List.mem_append, List.not_mem_nil, or_false]
  grind

end Pieces

variable {scope : Scope Ident}

theorem pieces_reference (x : String) (k : Nat) : Pieces scope k k (reference scope x).parts := by
  unfold reference
  split
  · next id h => exact Pieces.nil.cons_name (.inr ⟨x, h⟩)
  · have hcontext : Ident.context ∈ entryParams := by decide
    have hframe : Ident.frame ∈ entryParams := by decide
    have hruntime : Ident.runtime ∈ entryParams := by decide
    have hargs : Pieces scope k k [.name .context, .name .frame, .text x] :=
      ((Pieces.nil.cons_inert rfl).cons_name (.inl hframe)).cons_name (.inl hcontext)
    exact ((hargs.cons_name (.inl hruntime)).cons_inert rfl).cons_inert rfl

theorem Pieces.helper {lo hi field es} (h : Pieces scope lo hi (partsOf es))
    (happend : field ≠ .append) (hset : field ≠ .set) :
    Pieces scope lo hi (Expr.helper field es).parts := by
  have hruntime : Ident.runtime ∈ entryParams := by decide
  have hinert : Expr.isInert (.attr (.name .runtime) field) = true := by
    simp [Expr.isInert, happend, hset]
  exact ((h.cons_name (.inl hruntime)).cons_inert hinert).cons_inert rfl

theorem partsOf_pair (l r : Expr) : partsOf [l, r] = l.parts ++ r.parts := by
  simp [partsOf]

mutual

/-- What the parts of the code of an expression are. -/
theorem Emits.pieces {n p p' e} : Emits scope n p e p' → Pieces scope p.temps p'.temps e.parts
  | .literal | .text => Pieces.nil.cons_inert rfl
  | .symbol => pieces_reference _ _
  | .group h => h.pieces
  | .unary _ h => h.pieces.cons_inert rfl
  | .tuple _ h | .array h => h.pieces.cons_inert rfl
  | .dict h => h.pieces.cons_inert rfl
  | .boolean _ hl hr | .binary _ hl hr =>
    (hl.pieces.append hr.pieces hl.advances.temps_le hr.advances.temps_le).cons_inert rfl
  | .floorDiv hl hr => by
    have h := hl.pieces.append hr.pieces hl.advances.temps_le hr.advances.temps_le
    refine Pieces.helper ?_ Attr.noConfusion Attr.noConfusion
    simpa [partsOf, Expr.parts] using h.cons_inert rfl
  | .power hl hr | .lookup _ _ hl hr => by
    have h := hl.pieces.append hr.pieces hl.advances.temps_le hr.advances.temps_le
    refine Pieces.helper ?_ Attr.noConfusion Attr.noConfusion
    rwa [partsOf_pair]
  | .compare h hs =>
    (h.pieces.append hs.pieces h.advances.temps_le hs.advances.temps_le).cons_inert rfl
  | .call _ has hf => .dualCall has.pieces.2 hf.pieces has.advances.temps_le hf.advances.temps_le
  | .filter has => by
    have henv : Ident.env ∈ entryParams := by decide
    have hps := has.pieces.1
    exact ((((hps.cons_inert rfl).cons_name (.inl henv)).cons_inert rfl).cons_inert rfl).cons_inert
      rfl

theorem EmitsAll.pieces {ns p p' es} :
    EmitsAll scope ns p es p' → Pieces scope p.temps p'.temps (partsOf es)
  | .nil => .nil
  | .cons h hs => h.pieces.append hs.pieces h.advances.temps_le hs.advances.temps_le

theorem EmitsEntries.pieces {ns p p' es} :
    EmitsEntries scope ns p es p' → Pieces scope p.temps p'.temps (partsOfEntries es)
  | .nil => .nil
  | .cons _ _ h hs =>
    (h.pieces.append hs.pieces h.advances.temps_le hs.advances.temps_le).cons_inert rfl

theorem EmitsOperands.pieces {ns p p' es} :
    EmitsOperands scope ns p es p' → Pieces scope p.temps p'.temps (partsOfOperands es)
  | .nil => .nil
  | .cons _ h hs => h.pieces.append hs.pieces h.advances.temps_le hs.advances.temps_le

theorem EmitsArguments.pieces {ns p p' ps ks} : EmitsArguments scope ns p ps ks p' →
    Pieces scope p.temps p'.temps (partsOf ps) ∧
      Pieces scope p.temps p'.temps (partsOf ps ++ partsOfEntries ks)
  | .nil => ⟨.nil, .nil⟩
  | .keyword (c := c) _ h hs => by
    refine ⟨hs.pieces.1.mono h.advances.temps_le (Nat.le_refl _), ?_⟩
    have happend := h.pieces.append hs.pieces.2 h.advances.temps_le hs.advances.temps_le
    have hkey : ∃ x, (Expr.ofContent c).parts = [x] ∧ x.isInert = true := by
      cases c <;> exact ⟨_, rfl, rfl⟩
    obtain ⟨x, hparts, hx⟩ := hkey
    refine (happend.cons_inert hx).of_mem_iff fun y => ?_
    simp only [partsOfEntries, hparts, mem_append, mem_cons, not_mem_nil, or_false]
    grind
  | .positional _ h hs => by
    refine ⟨h.pieces.append hs.pieces.1 h.advances.temps_le hs.advances.temps_le, ?_⟩
    have happend := h.pieces.append hs.pieces.2 h.advances.temps_le hs.advances.temps_le
    rwa [← append_assoc] at happend

end

end Compile

end Stencil
