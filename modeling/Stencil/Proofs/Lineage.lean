import Stencil.Proofs.Lookup

/-!
# Blocks in a line of templates

A template that inherits, its parent, the parent of the parent and so on make up a line. What a
reference to a block renders, and what the definition behind it is, can be read off the line
(`Line.definition?`, `Line.overridden?`). Code that runs with a context whose chains hold the
definitions of the line does what it would do if blocks were looked up in the line
(`Guarded.callsAlike_resolution`).
-/

namespace Stencil

open Script Engine Eval List

/-! ## Looking up blocks in a line -/

namespace Line

variable {line : List Template} {b : String}

/-- The definitions of a block in a line of templates, the most derived one first. -/
def definitions (line : List Template) (b : String) : List Value :=
  line.filterMap (·.blocks.find? b)

/-- The definition that a reference to a block renders: that of the first template that has one. -/
def definition? (line : List Template) (b : String) : Option Value :=
  line.findSome? (·.blocks.find? b)

/-- The definition behind a given one: that of the first template that has one after the template
whose definition is given. -/
def overridden? : List Template → String → Value → Option Value
  | [], _, _ => none
  | t :: rest, b, block =>
    match t.blocks.find? b with
    | none => overridden? rest b block
    | some d => if d.identical block then definition? rest b else overridden? rest b block

theorem definitions_cons_of_none {t} (h : t.blocks.find? b = none) :
    definitions (t :: line) b = definitions line b :=
  filterMap_cons_none h

theorem definitions_cons_of_some {t d} (h : t.blocks.find? b = some d) :
    definitions (t :: line) b = d :: definitions line b :=
  filterMap_cons_some h

theorem head?_definitions (line : List Template) (b : String) :
    (definitions line b).head? = definition? line b :=
  head?_filterMap

/-- The definition behind a given one is the next one among all definitions. -/
theorem overridden?_eq (line : List Template) (b : String) (block : Value) :
    overridden? line b block =
      (((definitions line b).dropWhile fun d => !d.identical block).drop 1).head? := by
  induction line with
  | nil => rfl
  | cons t rest ih =>
    unfold overridden?
    cases hfind : t.blocks.find? b with
    | none =>
      rw [definitions_cons_of_none hfind]
      exact ih
    | some d =>
      rw [definitions_cons_of_some hfind, dropWhile_cons]
      cases hsame : d.identical block with
      | true => simpa [hsame] using (head?_definitions rest b).symm
      | false => simpa [hsame] using ih

/-- Where each definition is a function of its own, the definition behind that of a template comes
from the templates after it. -/
theorem overridden?_of_getElem? {k} : ∀ {line : List Template} {i : Nat} {t : Template},
    (definitions line b).Nodup → (line)[i]? = some t → t.blocks.find? b = some (.function k) →
    overridden? line b (.function k) = definition? (line.drop (i + 1)) b
  | [], _, _, _, hi, _ => by simp at hi
  | t :: rest, 0, u, _, hi, hfind => by
    cases hi
    simp [overridden?, hfind, Value.identical]
  | t :: rest, i + 1, u, hnodup, hi, hfind => by
    have hmem : .function k ∈ definitions rest b :=
      mem_filterMap.2 ⟨u, mem_of_getElem? hi, hfind⟩
    unfold overridden?
    cases hfirst : t.blocks.find? b with
    | none =>
      rw [definitions_cons_of_none hfirst] at hnodup
      exact overridden?_of_getElem? hnodup hi hfind
    | some d =>
      rw [definitions_cons_of_some hfirst, nodup_cons] at hnodup
      have hother : d.identical (.function k) = false := by
        cases d <;> simp [Value.identical]
        rename_i j
        rintro rfl
        exact hnodup.1 hmem
      dsimp only
      rw [hother]
      exact overridden?_of_getElem? hnodup.2 hi hfind

/-- Look up the blocks of a context in a line of templates. -/
def resolution (c : Ref) (line : List Template) : Interception where
  method self field args x :=
    match self, field, args with
    | .context d, .getBlock, [.value (.str b)] =>
      if d = c then
        match definition? line b with
        | some v => pure (.value v)
        | none => failWith (.unknownBlock b)
      else x
    | .context d, .getSuper, [.value env, .value (.str b), .value block, _] =>
      if d = c then
        return .value (← newFunction (.superBlock env c (.str b) (overridden? line b block)))
      else x
    | _, _, _ => x

theorem resolution_getSuper (c : Ref) (line : List Template) (env : Value) (b : String)
    (block : Value) (x : Eval Cell) :
    (resolution c line).method (.context c) .getSuper
        [.value env, .value (.ofText b), .value block, .runtime] x =
      do return .value (← newFunction (.superBlock env c (.str b) (overridden? line b block))) :=
  if_pos rfl

/-- Where the chains of a context hold the definitions of a line, blocks are found in the line. -/
theorem outcome_resolution {c w} (hw : ∀ b, (w.context c).chain b = definitions line b)
    (call : Call) (self : Cell) (field : Attr) (args : List Cell) :
    ((resolution c line).method self field args (callMethod call self field args)).outcome w =
      (callMethod call self field args).outcome w := by
  unfold resolution
  dsimp only
  split
  · split
    · rename_i o b hd
      subst hd
      rw [callMethod_context, outcome_contextMethod_text, hw b, ← head?_definitions line b]
      cases definitions line b <;> rfl
    · rfl
  · split
    · rename_i d env o b block _ hd
      subst hd
      have hnext : (w.context d).nextBlock? (.str b) block = overridden? line b block := by
        rw [overridden?_eq, ← hw b]
        rfl
      rw [callMethod_context, ← hnext]
      rfl
    · rfl
  · rfl

end Line

/-! ## Contexts that hold a line -/

namespace Guarded

variable {c : Ref} {known : Value → Prop} {blocks : Table String (List Value)}
  (hknown : ∀ name, ∀ v ∈ (blocks.find? name).getD [], known v)

include hknown

/-- What is found as the definition of a block is known. -/
theorem known_of_getBlock {args w u cell} (h : Guarded c known blocks w)
    (hrun : (contextMethod c .getBlock args).outcome w = (.ok cell, u)) :
    ∃ v, cell = .value v ∧ known v := by
  obtain ⟨vs, u', hvs, hrun⟩ := outcome_bind_eq_ok hrun
  obtain ⟨v, u'', hget, hrun⟩ := outcome_bind_eq_ok hrun
  cases hrun
  refine ⟨v, rfl, ?_⟩
  have hsame : (u'.context c) = w.context c := by
    rw [outcome_lift] at hvs
    obtain rfl : _ = u' := congrArg Prod.snd hvs
    rfl
  unfold callContext at hget
  split at hget <;> first | cases ‹Attr.getBlock = _› | cases hget
  rename_i name
  rw [outcome_getBlock, hsame] at hget
  refine h.known_of_mem_chainOf hknown (name.constant?.getD .null) ?_
  cases hchain : (w.context c).chainOf (name.constant?.getD .null) with
  | nil =>
    rw [hchain] at hget
    cases hget
  | cons block rest =>
    rw [hchain] at hget
    cases hget
    exact mem_cons_self

/-- The engine keeps to itself what it finds in a guarded context. -/
theorem guards_call (fuel : Nat) : (call fuel).Guards c known blocks where
  steady := steady_call fuel
  result h := by
    cases fuel with
    | zero => cases h
    | succ fuel =>
      rcases result_callMethod h with ⟨v, rfl⟩ | ⟨f, rfl⟩ <;> exact id
  block hw h := by
    cases fuel with
    | zero => cases h
    | succ fuel =>
      have h : (callMethod (call fuel) (.context c) .getBlock _).outcome _ = _ := h
      rw [callMethod_context] at h
      exact hw.known_of_getBlock hknown h

/-- Code that runs with a context whose chains hold the definitions of a line finds its blocks in
the line. -/
theorem callsAlike_resolution {line}
    (hline : ∀ b, (blocks.find? b).getD [] = Line.definitions line b) (fuel : Nat) :
    CallsAlike (Always (Guarded c known blocks)) (admitted c known) (tame c) (call fuel)
      (intercepted (Line.resolution c line) fuel) := by
  refine (kept hknown).callsAlike_intercepted ?_ (guards_call hknown) fuel
  refine ⟨fun h => h, fun {call call' self field args} _ h => ?_⟩
  rintro _ w ⟨rfl, hw⟩
  rw [Line.outcome_resolution fun b => ?_]
  · exact h w w ⟨rfl, hw⟩
  · rw [Context.chain, hw.blocks_eq, hline]

end Guarded

end Stencil
