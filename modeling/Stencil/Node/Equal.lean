import Stencil.Decimal.Binary64
import Stencil.Node.Basic

/-!
# Equality of template trees

Two trees are equal when they have the same shape, the same positions, the same names and equal
constants. Constants are equal when they have the same value: a truth value equals the number it
counts as, a whole number the floating-point number of the same value, and NaN nothing at all.
-/

namespace Stencil

namespace Constant

/-- A truth value or a whole number as a whole number. -/
def int? : Constant → Option Int
  | bool b => some (if b then 1 else 0)
  | int n => some n
  | _ => none

/-- Equality of the values of constants. -/
def equal (a b : Constant) : Bool :=
  match a, b with
  | null, null => true
  | str s, str t => s == t
  | float x _, float y _ => x == y
  | float x _, c | c, float x _ => (c.int?.map (Binary64.eqInt x)).getD false
  | _, _ =>
    match a.int?, b.int? with
    | some m, some n => m == n
    | _, _ => false

end Constant

namespace Node

mutual

/-- Equality of trees. -/
def equal : Node → Node → Bool
  | literal p a, literal q b => p == q && a.equal b
  | symbol p s, symbol q t | text p s, text q t | unknown p s, unknown q t => p == q && s == t
  | group p a, group q b | array p a, array q b | dict p a, dict q b | sequence p a, sequence q b
  | output p a, output q b | root p a, root q b => p == q && equalAll a b
  | pair p a b, pair q c d | lookup p a b, lookup q c d | keyword p a b, keyword q c d
  | block p a b, block q c d => p == q && equal a c && equal b d
  | binary p f a b, binary q g c d => p == q && f == g && equal a c && equal b d
  | unary p f a, unary q g b => p == q && f == g && equal a b
  | operand p a s, operand q b t => p == q && equal a b && s == t
  | compare p a r, compare q b s => p == q && equal a b && equalAll r s
  | call p a r, call q b s | filter p a r, filter q b s =>
    p == q && equal a b && equalArguments r s
  | conditional p a b o, conditional q c d u =>
    p == q && equal a c && equal b d && equalOptional o u
  | loop p a b c, loop q d e f => p == q && equal a d && equal b e && equal c f
  | assign p s a, assign q t b => p == q && equalAll s t && equal a b
  | param p s a, param q t b => p == q && equal s t && equalOptional a b
  | macroDef p s r a, macroDef q t u b => p == q && equal s t && equalAll r u && equal a b
  | inherit p a, inherit q b | inclusion p a, inclusion q b => p == q && equal a b
  | importAll p a s, importAll q b t => p == q && equal a b && s == t
  | importNames p a s, importNames q b t => p == q && equal a b && s == t
  | _, _ => false
termination_by structural n => n

/-- Equality of lists of trees. -/
def equalAll : List Node → List Node → Bool
  | [], [] => true
  | a :: r, b :: s => equal a b && equalAll r s
  | _, _ => false
termination_by structural n => n

/-- Equality of optional trees. -/
def equalOptional : Option Node → Option Node → Bool
  | none, none => true
  | some a, some b => equal a b
  | _, _ => false
termination_by structural n => n

/-- Equality of argument lists. An absent list differs from an empty one. -/
def equalArguments : Option (List Node) → Option (List Node) → Bool
  | none, none => true
  | some a, some b => equalAll a b
  | _, _ => false
termination_by structural n => n

end

/-- Equality of what nodes carry. A tree never equals a constant. -/
def Content.equal : Content → Content → Bool
  | constant a, constant b => a.equal b
  | node a, node b => a.equal b
  | _, _ => false

/-- Whether a tree has a list of nodes or names somewhere in it. An absent list of arguments is
none. -/
def hasList : Node → Bool
  | literal .. | symbol .. | text .. | unknown .. => false
  | group .. | array .. | dict .. | compare .. | sequence .. | assign .. | macroDef .. | output ..
  | importNames .. | root .. => true
  | call _ a args? | filter _ a args? => args?.isSome || a.hasList
  | pair _ a b | binary _ _ a b | lookup _ a b | keyword _ a b | block _ a b
  | conditional _ a b none | param _ a (some b) => a.hasList || b.hasList
  | unary _ _ a | operand _ a _ | param _ a none | inherit _ a | inclusion _ a
  | importAll _ a _ => a.hasList
  | loop _ a b c | conditional _ a b (some c) => a.hasList || b.hasList || c.hasList

/-- Whether what a node carries can name an entry of a table. A list can change, so nothing that
has one can. -/
def Content.isKey : Content → Bool
  | constant _ => true
  | node n => !n.hasList

end Node

end Stencil
