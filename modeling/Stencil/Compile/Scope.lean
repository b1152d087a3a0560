import Stencil.Table
import Stencil.Text.Sorted

/-!
# Lexical scopes of a template

A `Scope` tells which names of a template have a variable of their own in the generated code. Scopes
nest: a loop body or a macro body opens a scope, and a name means its innermost binding.
-/

namespace Stencil

/-- A chain of lexical scopes, the innermost first and apart from the rest. A name can be bound to
nothing: it then belongs to the scope, and its meaning is looked up further out. -/
structure Scope (β : Type) where
  innermost : Table String (Option β) := {}
  outer : List (Table String (Option β)) := []
  deriving Inhabited

namespace Scope

variable {β : Type}

/-- Bind a name in the innermost scope, or enter it there with no binding. -/
def enter (s : Scope β) (name : String) (b? : Option β) : Scope β :=
  { s with innermost := s.innermost.insert name b? }

/-- Bind a name in the innermost scope. -/
def set (s : Scope β) (name : String) (b : β) : Scope β :=
  s.enter name (some b)

/-- The innermost binding of a name. -/
def lookup (s : Scope β) (name : String) : Option β :=
  (s.innermost :: s.outer).findSome? fun t => (t.find? name).join

/-- Open a scope. -/
def push (s : Scope β) : Scope β :=
  ⟨{}, s.innermost :: s.outer⟩

/-- Close the innermost scope; nothing when it is the only one. -/
def pop? (s : Scope β) : Option (Scope β) :=
  match s.outer with
  | [] => none
  | t :: rest => some ⟨t, rest⟩

/-- The number of scopes around the innermost one. -/
def depth (s : Scope β) : Nat :=
  s.outer.length

/-- The printed form of a scope: its depth and the names it binds. -/
def text (s : Scope β) : String :=
  s!"<Frame depth={s.depth} {Text.sortedList s.innermost.keys}>"

@[simp]
theorem pop?_push (s : Scope β) : s.push.pop? = some s := rfl

@[simp]
theorem lookup_push (s : Scope β) (name : String) : s.push.lookup name = s.lookup name := rfl

@[simp]
theorem lookup_set_self (s : Scope β) (name : String) (b : β) :
    (s.set name b).lookup name = some b := by
  simp [set, enter, lookup]

theorem lookup_set_of_ne (s : Scope β) {name other : String} (h : other ≠ name) (b : β) :
    (s.set name b).lookup other = s.lookup other := by
  simp only [set, enter, lookup, List.findSome?_cons, Table.find?_insert_of_ne _ h]

end Scope

end Stencil
