import Stencil.Proofs.Direct
import Stencil.Proofs.Gives

/-!
# Which code is generated for which tree

`Emits scope n p e p'` says in rules, one for each kind of node, that the expression `n` compiles to
`e` in a scope, where the temporaries are numbered from the progress `p` on and `p'` is the progress
afterwards. A compilation that succeeds follows the rules (`emits_of_gives`), so a property of all
generated code is proved by induction on them.
-/

namespace Stencil.Compile

open Script (Ident)

mutual

/-- The expression that a node compiles to. -/
inductive Emits (scope : Scope Ident) : Node → Progress → Script.Expr → Progress → Prop where
  | literal {pos c p} : Emits scope (.literal pos c) p (.const c) p
  | text {pos s p} : Emits scope (.text pos s) p (.text s) p
  | symbol {pos x p} : Emits scope (.symbol pos x) p (reference scope x) p
  | group {pos item p p' e} : Emits scope item p e p' → Emits scope (.group pos [item]) p e p'
  | tuple {pos items p p' es} : (∀ item, items ≠ [item]) → EmitsAll scope items p es p' →
    Emits scope (.group pos items) p (.tuple es) p'
  | array {pos items p p' es} :
    EmitsAll scope items p es p' → Emits scope (.array pos items) p (.list es) p'
  | dict {pos entries p p' es} :
    EmitsEntries scope entries p es p' → Emits scope (.dict pos entries) p (.dict es) p'
  | boolean {pos op op' left right p q p' l r} :
    op.logical? = some op' → Emits scope left p l q → Emits scope right q r p' →
    Emits scope (.binary pos op left right) p (.boolean op' l r) p'
  | binary {pos op op' left right p q p' l r} :
    op.arithmetic? = some op' → Emits scope left p l q → Emits scope right q r p' →
    Emits scope (.binary pos op left right) p (.binary op' l r) p'
  | floorDiv {pos left right p q p' l r} : Emits scope left p l q → Emits scope right q r p' →
    Emits scope (.binary pos .floorDiv left right) p (.helper .floor [.binary .div l r]) p'
  | power {pos left right p q p' l r} : Emits scope left p l q → Emits scope right q r p' →
    Emits scope (.binary pos .pow left right) p (.helper .power [l, r]) p'
  | unary {pos op op' target p p' e} : op.meaning? = some op' → Emits scope target p e p' →
    Emits scope (.unary pos op target) p (.unary op' e) p'
  | compare {pos first rest p q p' e es} :
    Emits scope first p e q → EmitsOperands scope rest q es p' →
    Emits scope (.compare pos first rest) p (.compare e es) p'
  | lookup {pos target key p q p' t k} : isValueKind target = true → isValueKind key = true →
    Emits scope target p t q → Emits scope key q k p' →
    Emits scope (.lookup pos target key) p (.helper .member [t, k]) p'
  | call {pos callee args? p q p' f positional keywords} : isValueKind callee = true →
    EmitsArguments scope (args?.getD []) { p with temps := p.temps + 1 } positional keywords q →
    Emits scope callee q f p' →
    Emits scope (.call pos callee args?) p (dualCall (.temp (p.temps + 1)) f positional keywords) p'
  | filter {pos namePos name args? p p' positional keywords} :
    EmitsArguments scope (args?.getD []) p positional keywords p' →
    Emits scope (.filter pos (.symbol namePos name) args?) p
      (.call (.method (.name .env) .getFilter [.text name]) positional) p'

/-- The expressions that nodes compile to, in order. -/
inductive EmitsAll (scope : Scope Ident) :
    List Node → Progress → List Script.Expr → Progress → Prop where
  | nil {p} : EmitsAll scope [] p [] p
  | cons {n rest p q p' e es} :
    Emits scope n p e q → EmitsAll scope rest q es p' → EmitsAll scope (n :: rest) p (e :: es) p'

/-- The entries that the pairs of a dictionary compile to. -/
inductive EmitsEntries (scope : Scope Ident) :
    List Node → Progress → List (Script.Expr × Script.Expr) → Progress → Prop where
  | nil {p} : EmitsEntries scope [] p [] p
  | cons {pos key value rest p q p' k e es} :
    dictKey? key = some k → isValueKind value = true → Emits scope value p e q →
    EmitsEntries scope rest q es p' →
    EmitsEntries scope (.pair pos key value :: rest) p ((.text k, e) :: es) p'

/-- The steps that the operands of a comparison compile to. -/
inductive EmitsOperands (scope : Scope Ident) :
    List Node → Progress → List (Script.CompareOp × Script.Expr) → Progress → Prop where
  | nil {p} : EmitsOperands scope [] p [] p
  | cons {pos n sign op rest p q p' e es} :
    compareOp? sign = some op → Emits scope n p e q → EmitsOperands scope rest q es p' →
    EmitsOperands scope (.operand pos n sign :: rest) p ((op, e) :: es) p'

/-- The positional and the keyword arguments that arguments compile to. -/
inductive EmitsArguments (scope : Scope Ident) : List Node → Progress → List Script.Expr →
    List (Script.Expr × Script.Expr) → Progress → Prop where
  | nil {p} : EmitsArguments scope [] p [] [] p
  | keyword {pos key value c rest p q p' e positional keywords} :
    key.content? = some c → Emits scope value p e q →
    EmitsArguments scope rest q positional keywords p' →
    EmitsArguments scope (.keyword pos key value :: rest) p positional
      ((.ofContent c, e) :: keywords) p'
  | positional {n rest p q p' e positional keywords} :
    (∀ pos key value, n ≠ .keyword pos key value) → Emits scope n p e q →
    EmitsArguments scope rest q positional keywords p' →
    EmitsArguments scope (n :: rest) p (e :: positional) keywords p'

end

variable {scope : Scope Ident}

mutual

/-- A compilation that succeeds follows the rules. -/
theorem emits_of_gives {p p' e} : ∀ n, Gives (expr scope n) p e p' → Emits scope n p e p'
  | .literal _ _, h => by
    obtain ⟨rfl, rfl⟩ := gives_pure.1 h
    exact .literal
  | .text _ _, h => by
    obtain ⟨rfl, rfl⟩ := gives_pure.1 h
    exact .text
  | .symbol _ _, h => by
    obtain ⟨rfl, rfl⟩ := gives_pure.1 h
    exact .symbol
  | .group _ [item], h => by
    rw [expr] at h
    exact .group (emits_of_gives item h)
  | .group _ [], h => by
    simp only [expr, gives_bind, gives_pure] at h
    obtain ⟨es, q, hes, rfl, rfl⟩ := h
    exact .tuple (by simp) (emitsAll_of_gives [] hes)
  | .group _ (n :: m :: rest), h => by
    simp only [expr, gives_bind, gives_pure] at h
    obtain ⟨es, q, hes, rfl, rfl⟩ := h
    exact .tuple (by simp) (emitsAll_of_gives (n :: m :: rest) hes)
  | .array _ items, h => by
    simp only [expr, gives_bind, gives_pure] at h
    obtain ⟨es, q, hes, rfl, rfl⟩ := h
    exact .array (emitsAll_of_gives items hes)
  | .dict _ entries, h => by
    simp only [expr, gives_bind, gives_pure] at h
    obtain ⟨es, q, hes, rfl, rfl⟩ := h
    exact .dict (emitsEntries_of_gives entries hes)
  | .binary _ op left right, h => by
    cases op <;> simp only [expr, gives_bind, gives_pure, gives_reject] at h
    all_goals obtain ⟨l, q, hl, r, q', hr, rfl, rfl⟩ := h
    case or => exact .boolean rfl (emits_of_gives left hl) (emits_of_gives right hr)
    case and => exact .boolean rfl (emits_of_gives left hl) (emits_of_gives right hr)
    case floorDiv => exact .floorDiv (emits_of_gives left hl) (emits_of_gives right hr)
    case pow => exact .power (emits_of_gives left hl) (emits_of_gives right hr)
    all_goals exact .binary rfl (emits_of_gives left hl) (emits_of_gives right hr)
  | .unary _ op target, h => by
    cases op <;> simp only [expr, gives_bind, gives_pure, gives_reject] at h
    all_goals
      obtain ⟨t, q, ht, rfl, rfl⟩ := h
      exact .unary rfl (emits_of_gives target ht)
  | .compare _ first rest, h => by
    simp only [expr, gives_bind, gives_pure] at h
    obtain ⟨f, q, hf, es, q', hes, rfl, rfl⟩ := h
    exact .compare (emits_of_gives first hf) (emitsOperands_of_gives rest hes)
  | .lookup _ target key, h => by
    simp only [expr, gives_bind, gives_pure, gives_demand] at h
    obtain ⟨_, _, ⟨hvt, rfl⟩, t, q, ht, _, _, ⟨hvk, rfl⟩, k, q', hk, rfl, rfl⟩ := h
    exact .lookup hvt hvk (emits_of_gives target ht) (emits_of_gives key hk)
  | .call _ callee none, h => by
    simp only [expr, callArguments, gives_bind, gives_pure, gives_demand, gives_fresh] at h
    obtain ⟨_, _, ⟨rfl, rfl⟩, _, _, ⟨rfl, rfl⟩, _, _, ⟨hv, rfl⟩, f, q, hf, rfl, rfl⟩ := h
    exact .call hv .nil (emits_of_gives callee hf)
  | .call _ callee (some args), h => by
    simp only [expr, callArguments, gives_bind, gives_pure, gives_demand, gives_fresh] at h
    obtain ⟨_, _, ⟨rfl, rfl⟩, as, q, has, _, _, ⟨hv, rfl⟩, f, q', hf, rfl, rfl⟩ := h
    exact .call hv (emitsArguments_of_gives args has) (emits_of_gives callee hf)
  | .filter _ name args?, h => by
    cases name <;> simp only [expr, gives_bind, gives_pure, gives_reject] at h
    obtain ⟨as, q, has, rfl, rfl⟩ := h
    cases args? with
    | none =>
      simp only [callArguments, gives_pure] at has
      obtain ⟨rfl, rfl⟩ := has
      exact .filter .nil
    | some args =>
      rw [callArguments] at has
      exact .filter (emitsArguments_of_gives args has)
  | .pair .., h | .operand .., h | .keyword .., h | .sequence .., h | .conditional .., h
  | .loop .., h | .assign .., h | .param .., h | .macroDef .., h | .output .., h | .inherit .., h
  | .block .., h | .inclusion .., h | .importAll .., h | .importNames .., h | .root .., h
  | .unknown .., h => by simp only [expr, gives_reject] at h

theorem emitsAll_of_gives {p p' es} : ∀ ns, Gives (exprs scope ns) p es p' →
    EmitsAll scope ns p es p'
  | [], h => by
    simp only [exprs, gives_pure] at h
    obtain ⟨rfl, rfl⟩ := h
    exact .nil
  | n :: rest, h => by
    simp only [exprs, gives_bind, gives_pure] at h
    obtain ⟨e, q, he, es, q', hes, rfl, rfl⟩ := h
    exact .cons (emits_of_gives n he) (emitsAll_of_gives rest hes)

theorem emitsEntries_of_gives {p p' es} : ∀ ns, Gives (dictEntries scope ns) p es p' →
    EmitsEntries scope ns p es p'
  | [], h => by
    simp only [dictEntries, gives_pure] at h
    obtain ⟨rfl, rfl⟩ := h
    exact .nil
  | n :: rest, h => by
    cases n <;> simp only [dictEntries, gives_reject] at h
    rename_i pos key value
    cases hk : dictKey? key with
    | none => simp only [hk, gives_reject] at h
    | some k =>
      simp only [hk, gives_bind, gives_pure, gives_demand] at h
      obtain ⟨_, _, ⟨hv, rfl⟩, e, q, he, es, q', hes, rfl, rfl⟩ := h
      exact .cons hk hv (emits_of_gives value he) (emitsEntries_of_gives rest hes)

theorem emitsOperands_of_gives {p p' es} : ∀ ns, Gives (operands scope ns) p es p' →
    EmitsOperands scope ns p es p'
  | [], h => by
    simp only [operands, gives_pure] at h
    obtain ⟨rfl, rfl⟩ := h
    exact .nil
  | n :: rest, h => by
    cases n <;> simp only [operands, gives_lacking] at h
    rename_i pos n sign
    cases ho : compareOp? sign with
    | none => simp only [ho, gives_throw] at h
    | some op =>
      simp only [ho, gives_bind, gives_pure] at h
      obtain ⟨e, q, he, es, q', hes, rfl, rfl⟩ := h
      exact .cons ho (emits_of_gives n he) (emitsOperands_of_gives rest hes)

theorem emitsArguments_of_gives {p p' as} : ∀ ns, Gives (arguments scope ns) p as p' →
    EmitsArguments scope ns p as.1 as.2 p'
  | [], h => by
    simp only [arguments, gives_pure] at h
    obtain ⟨rfl, rfl⟩ := h
    exact .nil
  | n :: rest, h => by
    cases hn : n with
    | keyword pos key value =>
      subst hn
      simp only [arguments, gives_bind, gives_pure, gives_nameOf] at h
      obtain ⟨c, _, ⟨hc, rfl⟩, e, q, he, as, q', has, rfl, rfl⟩ := h
      exact .keyword hc (emits_of_gives value he) (emitsArguments_of_gives rest has)
    | _ =>
      subst hn
      simp only [arguments, gives_bind, gives_pure] at h
      obtain ⟨e, q, he, as, q', has, rfl, rfl⟩ := h
      exact .positional (by simp) (emits_of_gives _ he) (emitsArguments_of_gives rest has)

end

/-! ## First consequences -/

/-- Progress in which only temporaries were handed out. -/
structure Progress.Advances (p p' : Progress) : Prop where
  temps_le : p.temps ≤ p'.temps
  child_eq : p'.child = p.child

namespace Progress.Advances

theorem refl (p : Progress) : p.Advances p :=
  ⟨Nat.le_refl _, rfl⟩

theorem trans {p q p' : Progress} (h : p.Advances q) (h' : q.Advances p') : p.Advances p' :=
  ⟨Nat.le_trans h.temps_le h'.temps_le, h'.child_eq.trans h.child_eq⟩

theorem fresh {p p' : Progress} (h : Advances { p with temps := p.temps + 1 } p') : p.Advances p' :=
  ⟨Nat.le_trans (Nat.le_succ _) h.temps_le, h.child_eq⟩

end Progress.Advances

mutual

/-- Compiling an expression only hands out temporaries. -/
theorem Emits.advances {n p p' e} : Emits scope n p e p' → p.Advances p'
  | .literal | .text | .symbol => .refl _
  | .group h | .unary _ h => h.advances
  | .tuple _ h | .array h => h.advances
  | .dict h => h.advances
  | .boolean _ hl hr | .binary _ hl hr | .floorDiv hl hr | .power hl hr | .lookup _ _ hl hr =>
    hl.advances.trans hr.advances
  | .compare h hs => h.advances.trans hs.advances
  | .call _ has hf => has.advances.fresh.trans hf.advances
  | .filter has => has.advances

theorem EmitsAll.advances {ns p p' es} : EmitsAll scope ns p es p' → p.Advances p'
  | .nil => .refl _
  | .cons h hs => h.advances.trans hs.advances

theorem EmitsEntries.advances {ns p p' es} : EmitsEntries scope ns p es p' → p.Advances p'
  | .nil => .refl _
  | .cons _ _ h hs => h.advances.trans hs.advances

theorem EmitsOperands.advances {ns p p' es} : EmitsOperands scope ns p es p' → p.Advances p'
  | .nil => .refl _
  | .cons _ h hs => h.advances.trans hs.advances

theorem EmitsArguments.advances {ns p p' positional keywords} :
    EmitsArguments scope ns p positional keywords p' → p.Advances p'
  | .nil => .refl _
  | .keyword _ h hs => h.advances.trans hs.advances
  | .positional _ h hs => h.advances.trans hs.advances

end

/-- The code of an expression is constant just if the expression is. -/
theorem Emits.isConstant_eq {n p p' e} : Emits scope n p e p' → e.isConstant = Direct.isConstant n
  | .literal | .text => rfl
  | .symbol => by
    unfold reference
    split <;> rfl
  | .group h => by rw [Direct.isConstant, h.isConstant_eq]
  | .tuple hne _ => (Direct.isConstant_tuple hne).symm
  | .array _ | .dict _ | .compare _ _ | .lookup _ _ _ _ | .call _ _ _ | .filter _ => rfl
  | .boolean hop _ _ => (Direct.isConstant_logical hop).symm
  | .binary hop hl hr => by
    rw [Script.Expr.isConstant, Direct.isConstant, hl.isConstant_eq, hr.isConstant_eq, hop]
    rfl
  | .floorDiv _ _ | .power _ _ => rfl
  | .unary hop h => by
    rw [Script.Expr.isConstant, Direct.isConstant, h.isConstant_eq, hop]
    rfl

end Stencil.Compile
