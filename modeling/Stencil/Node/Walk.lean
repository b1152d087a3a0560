import Stencil.Node.Basic

/-!
# Walking a template tree

`Node.children` lists the nodes directly below a node in the order of its parts, and
`Node.descendants` all nodes below it, each before what is below it.
-/

namespace Stencil.Node

/-- The nodes directly below a node, in the order of its parts. -/
def children : Node → List Node
  | literal .. | symbol .. | text .. | unknown .. => []
  | group _ items | array _ items | dict _ items | sequence _ items | output _ items
  | root _ items => items
  | pair _ a b | binary _ _ a b | lookup _ a b | keyword _ a b | block _ a b => [a, b]
  | unary _ _ a | operand _ a _ | inherit _ a | inclusion _ a | importAll _ a _
  | importNames _ a _ => [a]
  | compare _ first rest => first :: rest
  | call _ a args? | filter _ a args? => a :: args?.getD []
  | conditional _ test body otherwise? => test :: body :: otherwise?.toList
  | loop _ target source body => [target, source, body]
  | assign _ targets value => targets ++ [value]
  | param _ name default? => name :: default?.toList
  | macroDef _ name params body => name :: params ++ [body]

mutual

/-- All nodes below a node, each one before the nodes below it. -/
def descendants : Node → List Node
  | literal .. | symbol .. | text .. | unknown .. => []
  | group _ items | array _ items | dict _ items | sequence _ items | output _ items
  | root _ items => forest items
  | pair _ a b | binary _ _ a b | lookup _ a b | keyword _ a b | block _ a b =>
    a :: descendants a ++ b :: descendants b
  | unary _ _ a | operand _ a _ | inherit _ a | inclusion _ a | importAll _ a _
  | importNames _ a _ => a :: descendants a
  | compare _ first rest => first :: descendants first ++ forest rest
  | call _ a args? | filter _ a args? => a :: descendants a ++ argumentForest args?
  | conditional _ test body otherwise? =>
    test :: descendants test ++ body :: descendants body ++ optional otherwise?
  | loop _ target source body =>
    target :: descendants target ++ source :: descendants source ++ body :: descendants body
  | assign _ targets value => forest targets ++ value :: descendants value
  | param _ name default? => name :: descendants name ++ optional default?
  | macroDef _ name params body =>
    name :: descendants name ++ forest params ++ body :: descendants body

/-- The given nodes with all nodes below them. -/
def forest : List Node → List Node
  | [] => []
  | n :: ns => n :: descendants n ++ forest ns

/-- The node that may stand in an optional place, with all nodes below it. -/
def optional : Option Node → List Node
  | none => []
  | some n => n :: descendants n

/-- The arguments that a call may have, with all nodes below them. -/
def argumentForest : Option (List Node) → List Node
  | none => []
  | some args => forest args

end

mutual

/-- What is below a descendant is a descendant. -/
theorem descendants_subset : ∀ (n : Node) {d : Node}, d ∈ n.descendants →
    d.descendants ⊆ n.descendants
  | literal .., _, h | symbol .., _, h | text .., _, h | unknown .., _, h => by cases h
  | group _ items, d, h | array _ items, d, h | dict _ items, d, h | sequence _ items, d, h
  | output _ items, d, h | root _ items, d, h => forest_subset items h
  | pair _ a b, d, h | binary _ _ a b, d, h | lookup _ a b, d, h | keyword _ a b, d, h
  | block _ a b, d, h => by
    have ha := @descendants_subset a d
    have hb := @descendants_subset b d
    grind [descendants]
  | unary _ _ a, d, h | operand _ a _, d, h | inherit _ a, d, h | inclusion _ a, d, h
  | importAll _ a _, d, h | importNames _ a _, d, h => by
    have ha := @descendants_subset a d
    grind [descendants]
  | compare _ first rest, d, h => by
    have ha := @descendants_subset first d
    have hb := @forest_subset rest d
    grind [descendants]
  | call _ a args?, d, h | filter _ a args?, d, h => by
    have ha := @descendants_subset a d
    have hb := @argumentForest_subset args? d
    grind [descendants]
  | conditional _ test body otherwise?, d, h => by
    have ha := @descendants_subset test d
    have hb := @descendants_subset body d
    have hc := @optional_subset otherwise? d
    grind [descendants]
  | loop _ target source body, d, h => by
    have ha := @descendants_subset target d
    have hb := @descendants_subset source d
    have hc := @descendants_subset body d
    grind [descendants]
  | assign _ targets value, d, h => by
    have ha := @forest_subset targets d
    have hb := @descendants_subset value d
    grind [descendants]
  | param _ name default?, d, h => by
    have ha := @descendants_subset name d
    have hb := @optional_subset default? d
    grind [descendants]
  | macroDef _ name params body, d, h => by
    have ha := @descendants_subset name d
    have hb := @forest_subset params d
    have hc := @descendants_subset body d
    grind [descendants]

theorem forest_subset : ∀ (ns : List Node) {d : Node}, d ∈ forest ns → d.descendants ⊆ forest ns
  | [], _, h => by cases h
  | n :: rest, d, h => by
    have ha := @descendants_subset n d
    have hb := @forest_subset rest d
    grind [forest]

theorem optional_subset : ∀ (n? : Option Node) {d : Node}, d ∈ optional n? →
    d.descendants ⊆ optional n?
  | none, _, h => by cases h
  | some n, d, h => by
    have ha := @descendants_subset n d
    grind [optional]

theorem argumentForest_subset : ∀ (args? : Option (List Node)) {d : Node},
    d ∈ argumentForest args? → d.descendants ⊆ argumentForest args?
  | none, _, h => by cases h
  | some args, d, h => forest_subset args h

end

theorem cons_subset_descendants {n d : Node} (h : d ∈ n.descendants) :
    d :: d.descendants ⊆ n.descendants :=
  List.cons_subset.2 ⟨h, n.descendants_subset h⟩

theorem mem_forest {ns : List Node} {n : Node} (h : n ∈ ns) : n ∈ forest ns := by
  induction ns with
  | nil => cases h
  | cons first rest ih =>
    rcases List.mem_cons.1 h with rfl | h
    · exact List.mem_cons_self
    · exact List.mem_append_right _ (ih h)

theorem mem_descendants_of_mem_children {n child : Node} (h : child ∈ n.children) :
    child ∈ n.descendants := by
  have hforest {ns : List Node} : child ∈ ns → child ∈ forest ns := mem_forest
  cases n with
  | call pos callee args? | filter pos name args? =>
    cases args? <;> grind [children, descendants, argumentForest]
  | conditional pos test body otherwise? =>
    cases otherwise? <;> grind [children, descendants, optional]
  | param pos name default? => cases default? <;> grind [children, descendants, optional]
  | _ => grind [children, descendants]

/-- The descendants of a node that count as the given kind. -/
def findAll (n : Node) (kind : String) : List Node :=
  n.descendants.filter fun d => d.families.contains kind

/-- The blocks defined anywhere below a node, in order of occurrence, as name and body. -/
def blocks (n : Node) : List (Node × Node) :=
  n.descendants.filterMap fun
    | block _ name body => some (name, body)
    | _ => none

/-- The parameters of a macro definition. -/
def params? : Node → Option (List Node)
  | macroDef _ _ params _ => some params
  | _ => none

end Stencil.Node
