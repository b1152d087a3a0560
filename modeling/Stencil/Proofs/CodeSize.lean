import Mathlib.Algebra.Group.Nat.Defs
import Stencil.Proofs.Emission
import Stencil.Proofs.Parts

/-!
# The size of generated expressions

The code of a call holds the code of the positional arguments twice, once for each calling
convention. So a node occurs in the generated code once for every choice of one of the two copies at
each call among whose positional arguments it stands. Counted in this way, the nodes of a tree bound
the size of its code up to a constant factor (`size_expr_le`); counted once each, they do not
(`size_expr_not_linear`).
-/

namespace Stencil

open List Script

/-- How many nodes a part of an expression adds: the identifier that a part binds is a node of its
own. -/
def Script.Expr.weight : Expr → Nat
  | .bind .. => 2
  | _ => 1

/-- The number of nodes that the parts of expressions make up. -/
def Script.weightOf : List Expr → Nat
  | [] => 0
  | e :: rest => weightOf rest + e.weight

theorem Script.weightOf_append (es rest : List Expr) :
    weightOf (es ++ rest) = weightOf es + weightOf rest := by
  induction es with
  | nil => exact (Nat.zero_add _).symm
  | cons e others ih => rw [cons_append, weightOf, weightOf, ih, Nat.add_right_comm]

/-- The number of nodes of an expression. -/
def Script.Expr.size (e : Expr) : Nat :=
  weightOf e.parts

namespace Node

/-- The number of nodes of a tree. -/
def size (n : Node) : Nat :=
  (n :: n.descendants).length

mutual

/-- Every node of a tree with the number of calls among whose positional arguments it stands, where
`k` such calls are around the whole tree. -/
def placed (k : Nat) : Node → List (Nat × Node)
  | n@(literal ..) | n@(symbol ..) | n@(text ..) | n@(unknown ..) => [(k, n)]
  | n@(group _ items) | n@(array _ items) | n@(dict _ items) | n@(sequence _ items)
  | n@(output _ items) | n@(root _ items) => (k, n) :: placedIn k items
  | n@(pair _ a b) | n@(binary _ _ a b) | n@(lookup _ a b) | n@(keyword _ a b)
  | n@(block _ a b) => (k, n) :: (placed k a ++ placed k b)
  | n@(unary _ _ a) | n@(operand _ a _) | n@(inherit _ a) | n@(inclusion _ a)
  | n@(importAll _ a _) | n@(importNames _ a _) => (k, n) :: placed k a
  | n@(compare _ first rest) => (k, n) :: (placed k first ++ placedIn k rest)
  | n@(call _ callee none) => (k, n) :: placed k callee
  | n@(call _ callee (some args)) => (k, n) :: (placed k callee ++ placedArguments k args)
  | n@(filter _ name none) => (k, n) :: placed k name
  | n@(filter _ name (some args)) => (k, n) :: (placed k name ++ placedIn k args)
  | n@(conditional _ test body none) => (k, n) :: (placed k test ++ placed k body)
  | n@(conditional _ test body (some otherwise)) =>
    (k, n) :: (placed k test ++ placed k body ++ placed k otherwise)
  | n@(loop _ target source body) =>
    (k, n) :: (placed k target ++ placed k source ++ placed k body)
  | n@(assign _ targets value) => (k, n) :: (placedIn k targets ++ placed k value)
  | n@(param _ name none) => (k, n) :: placed k name
  | n@(param _ name (some value)) => (k, n) :: (placed k name ++ placed k value)
  | n@(macroDef _ name params body) =>
    (k, n) :: (placed k name ++ placedIn k params ++ placed k body)

/-- The same for the nodes of several trees. -/
def placedIn (k : Nat) : List Node → List (Nat × Node)
  | [] => []
  | n :: rest => placed k n ++ placedIn k rest

/-- The same for the arguments of a call: the positional ones stand in one more call. -/
def placedArguments (k : Nat) : List Node → List (Nat × Node)
  | [] => []
  | n@(keyword _ key value) :: rest =>
    (k, n) :: (placed k key ++ placed k value) ++ placedArguments k rest
  | n :: rest => placed (k + 1) n ++ placedArguments k rest

end

section

attribute [local simp] placed placedIn placedArguments descendants forest argumentForest optional

mutual

/-- No node is left out and none is listed twice. -/
theorem map_snd_placed (k : Nat) : ∀ n : Node, (n.placed k).map (·.2) = n :: n.descendants
  | literal .. | symbol .. | text .. | unknown .. => rfl
  | group _ items | array _ items | dict _ items | sequence _ items | output _ items
  | root _ items => by simp [map_snd_placedIn k items]
  | pair _ a b | binary _ _ a b | lookup _ a b | keyword _ a b | block _ a b => by
    simp [map_snd_placed k a, map_snd_placed k b]
  | unary _ _ a | operand _ a _ | inherit _ a | inclusion _ a | importAll _ a _
  | importNames _ a _ => by simp [map_snd_placed k a]
  | compare _ first rest => by simp [map_snd_placed k first, map_snd_placedIn k rest]
  | call _ callee none | filter _ callee none => by simp [map_snd_placed k callee]
  | call _ callee (some args) => by simp [map_snd_placed k callee, map_snd_placedArguments k args]
  | filter _ name (some args) => by simp [map_snd_placed k name, map_snd_placedIn k args]
  | conditional _ test body none => by simp [map_snd_placed k test, map_snd_placed k body]
  | conditional _ test body (some otherwise) => by
    simp [map_snd_placed k test, map_snd_placed k body, map_snd_placed k otherwise]
  | loop _ target source body => by
    simp [map_snd_placed k target, map_snd_placed k source, map_snd_placed k body]
  | assign _ targets value => by simp [map_snd_placedIn k targets, map_snd_placed k value]
  | param _ name none => by simp [map_snd_placed k name]
  | param _ name (some value) => by simp [map_snd_placed k name, map_snd_placed k value]
  | macroDef _ name params body => by
    simp [map_snd_placed k name, map_snd_placedIn k params, map_snd_placed k body]

theorem map_snd_placedIn (k : Nat) : ∀ ns : List Node, (placedIn k ns).map (·.2) = forest ns
  | [] => rfl
  | n :: rest => by simp [map_snd_placed k n, map_snd_placedIn k rest]

theorem map_snd_placedArguments (k : Nat) : ∀ ns : List Node,
    (placedArguments k ns).map (·.2) = forest ns
  | [] => rfl
  | n :: rest => by
    have hrest := map_snd_placedArguments k rest
    cases n with
    | keyword pos key value =>
      simp [map_snd_placed k key, map_snd_placed k value, hrest]
    | _ => simp [-placed, -descendants, map_snd_placed (k + 1), hrest]

end

end

/-- The nodes of a list, each counted once for every choice of one of two copies at the calls among
whose positional arguments it stands. -/
def copies : List (Nat × Node) → Nat
  | [] => 0
  | (k, _) :: rest => 2 ^ k + copies rest

@[simp]
theorem copies_nil : copies [] = 0 := rfl

@[simp]
theorem copies_cons (k : Nat) (n : Node) (ns : List (Nat × Node)) :
    copies ((k, n) :: ns) = 2 ^ k + copies ns := rfl

@[simp]
theorem copies_append (ns ns' : List (Nat × Node)) :
    copies (ns ++ ns') = copies ns + copies ns' := by
  induction ns with
  | nil => exact (Nat.zero_add _).symm
  | cons first rest ih => rw [cons_append, copies, copies, ih, Nat.add_assoc]

theorem placedArguments_positional (k : Nat) {n rest}
    (hn : ∀ pos key value, n ≠ .keyword pos key value) :
    placedArguments k (n :: rest) = n.placed (k + 1) ++ placedArguments k rest := by
  cases n <;> first | exact (hn _ _ _ rfl).elim | rfl

theorem copies_placed_call (k : Nat) (pos : Position) (callee : Node) (args? : Option (List Node)) :
    copies (placed k (.call pos callee args?)) =
      2 ^ k + copies (callee.placed k) + copies (placedArguments k (args?.getD [])) := by
  cases args? <;> simp [placed, placedArguments, Nat.add_assoc]

theorem copies_placed_filter (k : Nat) (pos : Position) (name : Node) (args? : Option (List Node)) :
    copies (placed k (.filter pos name args?)) =
      2 ^ k + copies (name.placed k) + copies (placedIn k (args?.getD [])) := by
  cases args? <;> simp [placed, placedIn, Nat.add_assoc]

theorem copies_le {d ns} (h : ∀ n ∈ ns, n.1 ≤ d) : copies ns ≤ 2 ^ d * ns.length := by
  induction ns with
  | nil => exact Nat.le_refl 0
  | cons first rest ih =>
    obtain ⟨hfirst, hrest⟩ := forall_mem_cons.1 h
    have hpow : 2 ^ first.1 ≤ 2 ^ d := Nat.pow_le_pow_right (by decide) hfirst
    rw [length_cons, Nat.mul_succ, Nat.add_comm]
    exact Nat.add_le_add hpow (ih hrest)

end Node

namespace Compile

open Script (Ident)

variable {scope : Scope Ident}

theorem weight_reference (scope : Scope Ident) (x : String) :
    weightOf (reference scope x).parts ≤ 6 := by
  unfold reference
  split
  · exact Nat.le_add_left 1 5
  · exact Nat.le_refl 6

theorem weight_ofContent (c : Node.Content) : weightOf (Expr.ofContent c).parts = 1 := by
  cases c <;> rfl

/-- A call takes twelve nodes besides its callee and its arguments, and the positional arguments
stand in it twice. -/
theorem weight_dualCall (id : Ident) (f : Expr) (positional : List Expr)
    (keywords : List (Expr × Expr)) :
    weightOf (dualCall id f positional keywords).parts = 12 + weightOf f.parts +
      2 * weightOf (partsOf positional) + weightOf (partsOfEntries keywords) := by
  simp only [dualCall, Expr.helper, Expr.method, Expr.parts, partsOf,
    weightOf, weightOf_append, Expr.weight]
  omega

-- The bound is on all copies at once: `2 ^ k` copies are made of what stands among the positional
-- arguments of `k` calls, so that one call more doubles both sides.
mutual

/-- The copies of the code of an expression are at most twelve times as large as the copies of its
nodes. -/
theorem Emits.weight_le (k : Nat) {n p p' e} :
    Emits scope n p e p' → 2 ^ k * weightOf e.parts ≤ 12 * Node.copies (n.placed k)
  | .literal | .text => by
    simp only [Node.placed, Expr.text, Expr.parts, Node.copies_cons, Node.copies_nil,
      weightOf, Expr.weight]
    omega
  | .symbol (x := x) => by
    have hreference := Nat.mul_le_mul_left (2 ^ k) (weight_reference scope x)
    simp only [Node.placed, Node.copies_cons, Node.copies_nil]
    omega
  | .group h => by
    have hpos := Nat.two_pow_pos k
    have hitem := h.weight_le k
    simp only [Node.placed, Node.placedIn, Node.copies_cons, Node.copies_append, Node.copies_nil]
    omega
  | .tuple _ h | .array h => by
    have hpos := Nat.two_pow_pos k
    have hitems := h.weight_le k
    simp only [Node.placed, Expr.parts, weightOf, Expr.weight, Nat.mul_succ, Node.copies_cons]
    omega
  | .dict h => by
    have hpos := Nat.two_pow_pos k
    have hentries := h.weight_le k
    simp only [Node.placed, Expr.parts, weightOf, Expr.weight, Nat.mul_succ, Node.copies_cons]
    omega
  | .boolean _ hl hr | .binary _ hl hr | .floorDiv hl hr | .power hl hr | .lookup _ _ hl hr => by
    have hleft := hl.weight_le k
    have hright := hr.weight_le k
    simp only [Node.placed, Expr.helper, Expr.method, Expr.parts,
      partsOf, weightOf, weightOf_append, Expr.weight, Nat.mul_succ,
      Nat.mul_add, Node.copies_cons, Node.copies_append]
    omega
  | .unary _ h => by
    have hpos := Nat.two_pow_pos k
    have htarget := h.weight_le k
    simp only [Node.placed, Expr.parts, weightOf, Expr.weight, Nat.mul_succ, Node.copies_cons]
    omega
  | .compare h hs => by
    have hfirst := h.weight_le k
    have hrest := hs.weight_le k
    simp only [Node.placed, Expr.parts, weightOf, Expr.weight, weightOf_append, Nat.mul_succ,
      Nat.mul_add, Node.copies_cons, Node.copies_append]
    omega
  | .call _ has hf => by
    have hargs := has.weight_le k
    have hcallee := hf.weight_le k
    rw [Node.copies_placed_call, weight_dualCall]
    simp only [Nat.mul_add] at hargs ⊢
    omega
  | .filter has => by
    have hargs := has.weight_positional_le k
    rw [Node.copies_placed_filter]
    simp only [Expr.method, Expr.text, Expr.parts, partsOf,
      weightOf, weightOf_append, Expr.weight, Nat.mul_succ, Nat.mul_add]
    omega

theorem EmitsAll.weight_le (k : Nat) {ns p p' es} : EmitsAll scope ns p es p' →
      2 ^ k * weightOf (partsOf es) ≤ 12 * Node.copies (Node.placedIn k ns)
  | .nil => Nat.zero_le _
  | .cons h hs => by
    have hfirst := h.weight_le k
    have hrest := hs.weight_le k
    simp only [partsOf, weightOf_append, Nat.mul_add, Node.placedIn, Node.copies_append]
    omega

theorem EmitsEntries.weight_le (k : Nat) {ns p p' es} : EmitsEntries scope ns p es p' →
      2 ^ k * weightOf (partsOfEntries es) ≤ 12 * Node.copies (Node.placedIn k ns)
  | .nil => Nat.zero_le _
  | .cons _ _ h hs => by
    have hvalue := h.weight_le k
    have hrest := hs.weight_le k
    simp only [partsOfEntries, Expr.text, Expr.parts, weightOf, Expr.weight,
      weightOf_append, Nat.mul_succ, Nat.mul_add, Node.placedIn, Node.placed,
      Node.copies_cons, Node.copies_append]
    omega

theorem EmitsOperands.weight_le (k : Nat) {ns p p' es} : EmitsOperands scope ns p es p' →
      2 ^ k * weightOf (partsOfOperands es) ≤ 12 * Node.copies (Node.placedIn k ns)
  | .nil => Nat.zero_le _
  | .cons _ h hs => by
    have hoperand := h.weight_le k
    have hrest := hs.weight_le k
    simp only [partsOfOperands, weightOf_append, Nat.mul_add, Node.placedIn, Node.placed,
      Node.copies_cons, Node.copies_append]
    omega

/-- The arguments of a call, of which the positional ones are used twice. -/
theorem EmitsArguments.weight_le (k : Nat) {ns p p' positional keywords} :
    EmitsArguments scope ns p positional keywords p' →
      2 ^ k * (2 * weightOf (partsOf positional) + weightOf (partsOfEntries keywords)) ≤
        12 * Node.copies (Node.placedArguments k ns)
  | .nil => Nat.zero_le _
  | .keyword _ h hs => by
    have hvalue := h.weight_le k
    have hrest := hs.weight_le k
    simp only [partsOfEntries, weight_ofContent, weightOf_append, Nat.mul_succ,
      Nat.mul_add, Node.placedArguments, Node.copies_cons, Node.copies_append] at hrest ⊢
    omega
  | .positional hn h hs => by
    have hfirst := h.weight_le (k + 1)
    have hrest := hs.weight_le k
    rw [Node.placedArguments_positional k hn]
    simp only [partsOf, weightOf_append, Nat.mul_add, Nat.pow_succ, Nat.mul_assoc,
      Node.copies_append] at hfirst hrest ⊢
    omega

/-- The arguments of a filter, of which only the positional ones are used. -/
theorem EmitsArguments.weight_positional_le (k : Nat) {ns p p' positional keywords} :
    EmitsArguments scope ns p positional keywords p' →
      2 ^ k * weightOf (partsOf positional) ≤ 12 * Node.copies (Node.placedIn k ns)
  | .nil => Nat.zero_le _
  | .keyword _ _ hs => by
    have hrest := hs.weight_positional_le k
    rw [Node.placedIn, Node.copies_append]
    omega
  | .positional _ h hs => by
    have hfirst := h.weight_le k
    have hrest := hs.weight_positional_le k
    simp only [partsOf, weightOf_append, Nat.mul_add, Node.placedIn, Node.copies_append]
    omega

end

/-! ## Calls in calls -/

/-- A name in the argument of a call, in the argument of a call and so on. -/
def nestedCalls : Nat → Node
  | 0 => .symbol {} "x"
  | d + 1 => .call {} (.symbol {} "f") (some [nestedCalls d])

theorem size_nestedCalls (d : Nat) : (nestedCalls d).size = 2 * d + 1 := by
  induction d with
  | zero => rfl
  | succ d ih =>
    simp only [Node.size, nestedCalls, Node.descendants, Node.argumentForest, Node.forest,
      length_cons, length_append, length_nil] at ih ⊢
    omega

theorem gives_call {n p p' e f} (hn : ∀ pos key value, n ≠ .keyword pos key value)
    (h : Gives (expr scope n) { p with temps := p.temps + 1 } e p') :
    Gives (expr scope (.call {} (.symbol {} f) (some [n]))) p
      (dualCall (.temp (p.temps + 1)) (reference scope f) [e] []) p' := by
  have hargs : Gives (arguments scope [n]) { p with temps := p.temps + 1 } ([e], []) p' := by
    cases n <;> first
      | exact (hn _ _ _ rfl).elim
      | simpa only [arguments, gives_bind, gives_pure] using ⟨e, p', h, _, p', ⟨rfl, rfl⟩, rfl, rfl⟩
  simp only [expr, callArguments, gives_bind, gives_pure, gives_demand, gives_fresh]
  exact ⟨_, _, ⟨rfl, rfl⟩, _, p', hargs, (), p', ⟨rfl, rfl⟩, _, p', ⟨rfl, rfl⟩, rfl, rfl⟩

/-- Calls in calls are compiled, to code that doubles with each of them. -/
theorem exists_gives_nestedCalls (scope : Scope Ident) (d : Nat) (p : Progress) :
    ∃ e p', Gives (expr scope (nestedCalls d)) p e p' ∧ 2 ^ d ≤ e.size := by
  induction d generalizing p with
  | zero =>
    refine ⟨reference scope "x", p, rfl, ?_⟩
    unfold reference
    split
    · exact Nat.le_refl 1
    · exact Nat.le_add_left 1 5
  | succ d ih =>
    obtain ⟨e, p', he, hsize⟩ := ih { p with temps := p.temps + 1 }
    refine ⟨_, p', gives_call (by cases d <;> simp [nestedCalls]) he, ?_⟩
    rw [Expr.size, weight_dualCall]
    simp only [Expr.size, partsOf, append_nil] at hsize ⊢
    omega

/-! ## The bounds -/

/-- The code of an expression is at most twelve times as large as the expression, if each node is
counted `2 ^ k` times, where `k` is the number of calls among whose positional arguments it stands.
So it is linear in the number of nodes as long as calls are not nested deeper than some bound. -/
theorem size_expr_le {n : Node} {p p' : Progress} {e : Script.Expr}
    (h : Gives (expr scope n) p e p') :
    (n.placed 0).map (·.2) = n :: n.descendants ∧ e.size ≤ 12 * Node.copies (n.placed 0) ∧
      ∀ d, (∀ m ∈ n.placed 0, m.1 ≤ d) → e.size ≤ 12 * 2 ^ d * n.size := by
  have hplaced := n.map_snd_placed 0
  have hlength : (n.placed 0).length = n.size := by
    rw [Node.size, ← hplaced, List.length_map]
  have hcopies : e.size ≤ 12 * Node.copies (n.placed 0) := by
    have hle := (emits_of_gives n h).weight_le 0
    rwa [Nat.pow_zero, Nat.one_mul] at hle
  refine ⟨hplaced, hcopies, fun d hd => ?_⟩
  calc e.size ≤ 12 * Node.copies (n.placed 0) := hcopies
    _ ≤ 12 * (2 ^ d * (n.placed 0).length) := Nat.mul_le_mul_left 12 (Node.copies_le hd)
    _ = 12 * 2 ^ d * n.size := by rw [hlength, Nat.mul_assoc]

/-- A call with a call as positional argument and another one as keyword argument: the name in the
first is copied four times, the one in the second twice. -/
theorem size_mixed_call_le :
    let n : Node := .call {} (.symbol {} "f")
      (some [nestedCalls 1, .keyword {} (.symbol {} "key") (nestedCalls 1)])
    ∃ e p', Gives (expr {} n) {} e p' ∧ (n.placed 0).map (·.1) = [0, 0, 1, 1, 2, 0, 0, 0, 0, 1] ∧
      e.size ≤ 12 * 16 ∧ e.size ≤ 12 * 2 ^ 2 * n.size := by
  intro n
  have hgives : Gives (expr {} n) {} _ _ := rfl
  have hbound := size_expr_le hgives
  exact ⟨_, _, hgives, rfl, hbound.2.1, hbound.2.2 2 (by decide)⟩

/-- A power of two outgrows the number of nodes of as many nested calls, whatever the factor. -/
theorem mul_lt_two_pow (c : Nat) : c * (2 * (2 * c + 3) + 1) < 2 ^ (2 * c + 3) := by
  have hpow : c + 1 ≤ 2 ^ c := Nat.lt_two_pow_self
  have hnodes : 2 * (2 * c + 3) + 1 ≤ (c + 1) * 8 := by omega
  calc c * (2 * (2 * c + 3) + 1) < (c + 1) * (2 * (2 * c + 3) + 1) :=
        Nat.mul_lt_mul_of_pos_right (Nat.lt_succ_self c) (Nat.succ_pos _)
    _ ≤ 2 ^ c * (2 ^ c * 8) :=
        Nat.mul_le_mul hpow (Nat.le_trans hnodes (Nat.mul_le_mul_right 8 hpow))
    _ = 2 ^ (2 * c + 3) := by rw [Nat.pow_add, Nat.two_mul c, Nat.pow_add, Nat.mul_assoc]

/-- No constant bounds the size of the code by the number of nodes. -/
theorem size_expr_not_linear :
    ¬ ∃ c, ∀ (scope : Scope Ident) (n : Node) (p p' : Progress) (e : Script.Expr),
      Gives (expr scope n) p e p' → e.size ≤ c * n.size := by
  rintro ⟨c, hc⟩
  obtain ⟨e, p', he, hsize⟩ := exists_gives_nestedCalls {} (2 * c + 3) {}
  have hle := hc _ _ _ _ _ he
  rw [size_nestedCalls] at hle
  have hlt := mul_lt_two_pow c
  omega

end Compile

end Stencil
